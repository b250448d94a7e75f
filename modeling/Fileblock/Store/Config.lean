import Fileblock.Go.Path

/-! The backing store a volume lives in, as StorageClass parameters and volume
context describe it, and the directory its images are found in. -/
namespace Fileblock.Store
open Go

/-- A string map; a key that is absent reads as the empty string. -/
abbrev Params := List (String × Str)

def Params.get (p : Params) (key : String) : Str := (p.lookup key).getD []

def paramType := "backingStore.type"
def paramNFSServer := "backingStore.nfs.server"
def paramNFSPath := "backingStore.nfs.path"
def paramNFSMountOptions := "backingStore.nfs.mountOptions"
def paramNFSSubDir := "backingStore.nfs.subDir"
def paramLocalPath := "backingStore.local.path"
def paramLocalShared := "backingStore.local.shared"
def paramPVCName := "csi.storage.k8s.io/pvc/name"
def paramPVCNamespace := "csi.storage.k8s.io/pvc/namespace"
def paramPVName := "csi.storage.k8s.io/pv/name"

def tmplPVCName : Str := "$\x7bpvc.name\x7d"
def tmplPVCNamespace : Str := "$\x7bpvc.namespace\x7d"
def tmplPVName : Str := "$\x7bpv.name\x7d"

inductive Config where
  | nfs (server path mountOptions subDir : Str)
  | localDir (path : Str) (shared : Bool)
  deriving DecidableEq

inductive ParseError where
  | typeRequired
  | typeUnsupported (t : Str)
  | required (key value : String)
  | localSubDir
  | unresolved (token : Str) (renamed : Bool)
  | nul
  | absolute (sub : Str)
  | traversal (sub : Str)
  | exportRoot (sub : Str)
  deriving DecidableEq

def ParseError.text : ParseError → String
  | typeRequired => paramType ++ " is required (got empty)"
  | typeUnsupported t =>
    paramType ++ "=\"" ++ String.ofList t ++ "\" not supported (must be nfs or local)"
  | required key value => key ++ " is required when " ++ paramType ++ "=" ++ value
  | localSubDir => paramNFSSubDir ++ " is not supported when " ++ paramType ++ "=local"
  | unresolved token renamed =>
    let tokens := String.ofList tmplPVCNamespace ++ ", " ++ String.ofList tmplPVCName
    paramNFSSubDir ++ " contains unresolved template " ++ String.ofList token ++
      ": supported tokens are " ++ tokens ++ " and " ++ String.ofList tmplPVName ++
      ", and the csi-provisioner sidecar must run with --extra-create-metadata=true for them to resolve" ++
      if renamed then " (renamed to " ++ String.ofList tmplPVCNamespace ++ " / " ++
        String.ofList tmplPVCName ++ " / " ++ String.ofList tmplPVName ++ " in v0.5.0)" else ""
  | nul => paramNFSSubDir ++ " must not contain NUL bytes"
  | absolute sub =>
    paramNFSSubDir ++ " must be relative to the export, got \"" ++ String.ofList sub ++ "\""
  | traversal sub => paramNFSSubDir ++ " must not contain \"..\" path elements, got \"" ++
      String.ofList sub ++ "\""
  | exportRoot sub => paramNFSSubDir ++ " must name a subdirectory of the export, got \"" ++
      String.ofList sub ++ "\""

/-- Replace one template by its value, when there is one. -/
def substitute (params : Params) (sub : Str) (template : Str) (key : String) : Str :=
  if params.get key = [] then sub else replaceAll sub template (params.get key)

/-- The first template still in `sub`, and whether it is one of the names used
before v0.5.0. -/
def unresolvedTemplate (sub : Str) : Option (Str × Bool) :=
  (index sub "$\x7b").map fun i =>
    let rest := sub.drop i
    let token := ((index rest "\x7d").map fun j => rest.take (j + 1)).getD rest
    (token, hasPrefix token "$\x7bpvc.metadata." || hasPrefix token "$\x7bpv.metadata.")

/-- The cleaned relative path; a template that does not resolve is an error. -/
def resolveSubDir (raw : Str) (params : Params) : Except ParseError Str :=
  if raw = [] then .ok []
  else
    let sub := substitute params (substitute params (substitute params raw
      tmplPVCNamespace paramPVCNamespace) tmplPVCName paramPVCName) tmplPVName paramPVName
    match unresolvedTemplate sub with
    | some (token, renamed) => .error (.unresolved token renamed)
    | none =>
      if Char.ofNat 0 ∈ sub then .error .nul
      else if isAbs sub then .error (.absolute sub)
      else if ['.', '.'] ∈ split sub '/' then .error (.traversal sub)
      else if clean sub = ['.'] then .error (.exportRoot sub)
      else .ok (clean sub)

def nfsFromParams (params : Params) : Except ParseError Config :=
  if params.get paramNFSServer = [] then .error (.required paramNFSServer "nfs")
  else if params.get paramNFSPath = [] then .error (.required paramNFSPath "nfs")
  else
    match resolveSubDir (params.get paramNFSSubDir) params with
    | .error e => .error e
    | .ok sub => .ok (.nfs (params.get paramNFSServer) (params.get paramNFSPath)
        (params.get paramNFSMountOptions) sub)

def localFromParams (params : Params) : Except ParseError Config :=
  if params.get paramLocalPath = [] then .error (.required paramLocalPath "local")
  else if params.get paramNFSSubDir ≠ [] then .error .localSubDir
  else .ok (.localDir (params.get paramLocalPath) (params.get paramLocalShared = "true".toList))

def configFromParams (params : Params) : Except ParseError Config :=
  if params.get paramType = "nfs".toList then nfsFromParams params
  else if params.get paramType = "local".toList then localFromParams params
  else if params.get paramType = [] then .error .typeRequired
  else .error (.typeUnsupported (params.get paramType))

def configFromVolumeContext (context : Params) : Except ParseError Config :=
  configFromParams context

/-- Options in a fixed order, so that "a,b" and "b,a" name one mount. -/
def canonicalOptions (opts : Str) : Str :=
  let cleaned := ((split opts ',').map trimSpace).filter (· ≠ [])
  [','].intercalate (cleaned.mergeSort fun a b => decide (a ≤ b))

/-- What identifies the mount source; every subDir of an export shares one mount. -/
def Config.mountKey : Config → Str
  | .nfs server path options _ => ['|'].intercalate ["nfs", server, path, canonicalOptions options]
  | .localDir path _ => ['|'].intercalate ["local", path]

/-- The mount source plus the subDir the images live in. -/
def Config.storeKey (c : Config) : Str :=
  match c with
  | .nfs _ _ _ sub => if sub = [] then c.mountKey else c.mountKey ++ '|' :: sub
  | .localDir .. => c.mountKey

def Config.subDir : Config → Str
  | .nfs _ _ _ sub => sub
  | .localDir .. => []

end Fileblock.Store
