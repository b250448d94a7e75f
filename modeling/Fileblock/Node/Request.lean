import Fileblock.Node.Tools

/-! The requests of the CSI node service and the checks made on them. -/
namespace Fileblock.Node
open Go Store

inductive AccessMode where
  | unknown
  | singleNodeWriter
  | singleNodeReaderOnly
  | multiNodeReaderOnly
  | multiNodeSingleWriter
  | multiNodeMultiWriter
  | singleNodeSingleWriter
  | singleNodeMultiWriter
  deriving DecidableEq

def AccessMode.name : AccessMode → String
  | unknown => "UNKNOWN"
  | singleNodeWriter => "SINGLE_NODE_WRITER"
  | singleNodeReaderOnly => "SINGLE_NODE_READER_ONLY"
  | multiNodeReaderOnly => "MULTI_NODE_READER_ONLY"
  | multiNodeSingleWriter => "MULTI_NODE_SINGLE_WRITER"
  | multiNodeMultiWriter => "MULTI_NODE_MULTI_WRITER"
  | singleNodeSingleWriter => "SINGLE_NODE_SINGLE_WRITER"
  | singleNodeMultiWriter => "SINGLE_NODE_MULTI_WRITER"

inductive AccessType where
  | none
  | block
  | mount (fsType : String) (flags : List String)
  deriving DecidableEq

structure Capability where
  access : AccessType
  mode : AccessMode
  deriving DecidableEq

def defaultFs := "ext4"

def mountOptionsFromCap : Option Capability → List String
  | some ⟨.mount _ flags, _⟩ => flags
  | _ => []

def validateCapability : Option Capability → Except Status Unit
  | none => .error ⟨.invalidArgument, "volume_capability is required"⟩
  | some c =>
    if c.access = .block then .error ⟨.invalidArgument, "block volumes are not supported"⟩
    else if c.mode ≠ .singleNodeWriter then
      .error ⟨.invalidArgument, "access mode " ++ c.mode.name ++ " not supported"⟩
    else match c.access with
      | .mount fsType _ =>
        if fsType ≠ "" ∧ fsType ≠ defaultFs then
          .error ⟨.invalidArgument, "fsType \"" ++ fsType ++ "\" not supported"⟩
        else .ok ()
      | _ => .ok ()

/-- The secrets of a stage request; values are bytes. -/
abbrev Secrets := List (String × Crypt.Key)

def Secrets.get (s : Secrets) (key : String) : Crypt.Key := (s.lookup key).getD []

def secretKey := "key"
def secretPreviousKey := "previousKey"

def keysFromSecrets (s : Secrets) : Except Status StageKeys :=
  if s.get secretKey = [] then
    .error ⟨.failedPrecondition, "encrypted volume needs a \"key\" entry in its node-stage secret; " ++
      "set csi.storage.k8s.io/node-stage-secret-name and " ++
      "csi.storage.k8s.io/node-stage-secret-namespace on the StorageClass"⟩
  else if h : 32 ≤ (s.get secretKey).length then
    .ok ⟨⟨s.get secretKey, s.get secretPreviousKey, by intro h0; simp [h0] at h⟩, h⟩
  else
    .error ⟨.invalidArgument, "node-stage secret \"key\" is " ++
      toString (s.get secretKey).length ++ " bytes; at least 32 are required"⟩

/-- The secrets that give a key pair back. -/
def Secrets.ofKeys (k : Crypt.Keys) : Secrets :=
  (secretKey, k.current) :: if k.previous = [] then [] else [(secretPreviousKey, k.previous)]

def paramEncrypted := "encrypted"
def paramCipher := "encryption.cipher"
def paramKeySize := "encryption.keySize"

def isEncrypted (context : Params) : Bool := context.get paramEncrypted = "true".toList

def isLowerAlnum (c : Char) : Bool := ('a' ≤ c && c ≤ 'z') || ('0' ≤ c && c ≤ '9')

/-- `^[a-z0-9][a-z0-9:,()_-]*$`. -/
def cipherPattern : Str → Bool
  | [] => false
  | c :: s => isLowerAlnum c && s.all fun c => isLowerAlnum c || c ∈ ":,()_-".toList

def digits (s : Str) : Option ℕ :=
  if s ≠ [] ∧ s.all Char.isDigit then some (s.foldl (fun n c => 10 * n + (c.toNat - 48)) 0) else none

/-- `strconv.Atoi` with 64-bit integers. -/
def atoi (s : Str) : Option Int :=
  let n : Option Int := match s with
    | '+' :: s => (digits s).map Int.ofNat
    | '-' :: s => (digits s).map fun n => -Int.ofNat n
    | s => (digits s).map Int.ofNat
  n.filter fun n => decide (-2 ^ 63 ≤ n ∧ n < 2 ^ 63)

inductive FormatError where
  | plaintext
  | cipher (value : Str)
  | keySizeRequired
  | keySize (value : Str)
  deriving DecidableEq

def FormatError.text : FormatError → String
  | plaintext => paramCipher ++ " and " ++ paramKeySize ++ " need " ++ paramEncrypted ++ "=\"true\""
  | cipher v => paramCipher ++ "=\"" ++ String.ofList v ++ "\" is not a cryptsetup cipher spec"
  | keySizeRequired => paramKeySize ++ " is required with " ++ paramCipher
  | keySize v => paramKeySize ++ "=\"" ++ String.ofList v ++
      "\": must be a positive number of bits divisible by 8"

/-- The key size a parameter names, if it is a positive number of whole bytes. -/
def keySizeOf (v : Str) : Option ℕ :=
  (atoi v).bind fun n => if n ≤ 0 ∨ n % 8 ≠ 0 then none else some n.toNat

def formatFromParams (params : Params) (encrypted : Bool) : Except FormatError Crypt.Format :=
  let cipher := params.get paramCipher
  let keySize := params.get paramKeySize
  if cipher = [] ∧ keySize = [] then .ok Crypt.defaultFormat
  else if !encrypted then .error .plaintext
  else if cipher ≠ [] ∧ !cipherPattern cipher then .error (.cipher cipher)
  else if cipher ≠ [] ∧ keySize = [] then .error .keySizeRequired
  else
    let f := if cipher = [] then Crypt.defaultFormat else { Crypt.defaultFormat with cipher }
    if keySize = [] then .ok f
    else match keySizeOf keySize with
      | none => .error (.keySize keySize)
      | some n => .ok { f with keySize := n }

structure StageRequest where
  volumeID : VolumeID
  stagingTargetPath : Str
  volumeContext : Params
  secrets : Secrets
  capability : Option Capability

structure PublishRequest where
  volumeID : VolumeID
  stagingTargetPath : Str
  targetPath : Str
  capability : Option Capability
  readonly : Bool

/-- How a volume's image is turned into a block device with a filesystem. -/
inductive Mode where
  | plain
  | encrypted (k : StageKeys) (f : Crypt.Format)

/-- What `stageLocked` reads from the request before it touches anything. -/
def StageRequest.parse (req : StageRequest) : Except Status (Config × Mode) :=
  if req.volumeID = [] ∨ req.stagingTargetPath = [] then
    .error ⟨.invalidArgument, "volume_id and staging_target_path are required"⟩
  else match configFromVolumeContext req.volumeContext with
    | .error e => .error ⟨.invalidArgument, e.text⟩
    | .ok cfg =>
      if isEncrypted req.volumeContext then
        match keysFromSecrets req.secrets with
        | .error s => .error s
        | .ok k => match formatFromParams req.volumeContext true with
          | .error e => .error ⟨.invalidArgument, e.text⟩
          | .ok f => .ok (cfg, .encrypted k f)
      else .ok (cfg, .plain)

end Fileblock.Node
