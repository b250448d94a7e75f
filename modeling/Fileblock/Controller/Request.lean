import Fileblock.Node.Request
import Fileblock.Store.Context

/-! What the controller reads from a `CreateVolume` request and writes into the
volume context, and that the node reads the same things back. -/
namespace Fileblock.Controller
open Go Store Node

def minEncryptedCapacity : Int := 32 * 2 ^ 20

def encryptedFromParams (params : Params) : Except String Bool :=
  let v := params.get paramEncrypted
  if v = [] ∨ v = "false".toList then .ok false
  else if v = "true".toList then .ok true
  else .error (paramEncrypted ++ "=\"" ++ String.ofList v ++ "\": must be \"true\" or \"false\"")

def copyParam (params vc : Params) (key : String) : Params :=
  if params.get key = [] then vc else (key, params.get key) :: vc

/-- Copies only the cipher parameters that are set. -/
def formatToVolumeContext (vc params : Params) : Params :=
  [paramCipher, paramKeySize].foldl (copyParam params) vc

/-- The context of a volume `CreateVolume` answers with. -/
def volumeContext (hash : Str → Str) (params : Params) (cfg : Config) (encrypted : Bool) : Params :=
  if encrypted then
    formatToVolumeContext ((paramEncrypted, "true".toList) :: cfg.toVolumeContext hash) params
  else cfg.toVolumeContext hash

/-- The keys the driver reads from parameters and context. -/
def paramKeys : List String := configKeys ++ [paramEncrypted, paramCipher, paramKeySize]

theorem toVolumeContext_get_eq_nil (hash : Str → Str) (c : Config) {key : String}
    (h : key ∈ [paramEncrypted, paramCipher, paramKeySize]) :
    (c.toVolumeContext hash).get key = [] := by
  have hk : key ∉ volumeContextStoreID :: configKeys := by
    revert key
    decide
  have hne : ∀ k ∈ volumeContextStoreID :: configKeys, key ≠ k := fun k hm he => hk (he ▸ hm)
  have h0 := hne volumeContextStoreID (by decide)
  have h1 := hne paramType (by decide)
  have h2 := hne paramNFSServer (by decide)
  have h3 := hne paramNFSPath (by decide)
  have h4 := hne paramNFSMountOptions (by decide)
  have h5 := hne paramNFSSubDir (by decide)
  have h6 := hne paramLocalPath (by decide)
  have h7 := hne paramLocalShared (by decide)
  cases c <;> simp [Config.toVolumeContext, h0, h1, h2, h3, h4, h5, h6, h7]

theorem copyParam_get (params vc : Params) (k key : String) :
    (copyParam params vc k).get key =
      if key = k ∧ params.get k ≠ [] then params.get k else vc.get key := by
  unfold copyParam
  by_cases h : params.get k = [] <;> simp [h]

theorem volumeContext_get_of_config (hash : Str → Str) (params : Params) (cfg : Config)
    (encrypted : Bool) {key : String} (h : key ∈ configKeys) :
    (volumeContext hash params cfg encrypted).get key = (cfg.toVolumeContext hash).get key := by
  have hk : key ∉ [paramEncrypted, paramCipher, paramKeySize] := by
    revert key
    decide
  simp only [List.mem_cons, List.not_mem_nil, or_false, not_or] at hk
  cases encrypted with
  | false => rfl
  | true => simp [volumeContext, formatToVolumeContext, copyParam_get, hk]

theorem volumeContext_get_encrypted (hash : Str → Str) (params : Params) (cfg : Config)
    (encrypted : Bool) : (volumeContext hash params cfg encrypted).get paramEncrypted =
      if encrypted then "true".toList else [] := by
  cases encrypted with
  | false => exact toVolumeContext_get_eq_nil hash cfg (by decide)
  | true => simp +decide [volumeContext, formatToVolumeContext, copyParam_get]

theorem volumeContext_get_format (hash : Str → Str) (params : Params) (cfg : Config) {key : String}
    (h : key ∈ [paramCipher, paramKeySize]) :
    (volumeContext hash params cfg true).get key = params.get key := by
  have hnil := toVolumeContext_get_eq_nil hash cfg (List.mem_cons_of_mem paramEncrypted h)
  rcases List.mem_cons.mp h with rfl | h
  · by_cases hv : params.get paramCipher = [] <;>
      simp +decide [volumeContext, formatToVolumeContext, copyParam_get, hnil, hv]
  · obtain rfl : key = paramKeySize := by simpa using h
    by_cases hv : params.get paramKeySize = [] <;>
      simp +decide [volumeContext, formatToVolumeContext, copyParam_get, hnil, hv]

theorem formatFromParams_congr {params params' : Params} (encrypted : Bool)
    (h : ∀ key ∈ [paramCipher, paramKeySize], params.get key = params'.get key) :
    formatFromParams params encrypted = formatFromParams params' encrypted := by
  unfold formatFromParams
  rw [h paramCipher (by decide), h paramKeySize (by decide)]

/-- What the controller read from the parameters of a volume is what the node reads
from its context, whatever else has been added to that. -/
theorem volumeContext_read_back (hash : Str → Str) {params extra : Params} {cfg : Config}
    {encrypted : Bool} {format : Crypt.Format} (hcfg : configFromParams params = .ok cfg)
    (henc : encryptedFromParams params = .ok encrypted)
    (hfmt : formatFromParams params encrypted = .ok format)
    (hextra : ∀ e ∈ extra, e.1 ∉ paramKeys) :
    configFromVolumeContext (extra ++ volumeContext hash params cfg encrypted) = .ok cfg ∧
      (Params.get (extra ++ volumeContext hash params cfg encrypted) paramEncrypted = "true".toList ↔
        encryptedFromParams params = .ok true) ∧
      (encrypted = true →
        formatFromParams (extra ++ volumeContext hash params cfg encrypted) true = .ok format) := by
  have hget : ∀ key ∈ paramKeys, Params.get (extra ++ volumeContext hash params cfg encrypted) key =
      (volumeContext hash params cfg encrypted).get key := by
    intro key hk
    refine Params.get_append_of_notMem _ ?_
    intro e he h
    exact hextra e he (h ▸ hk)
  refine ⟨?_, ?_, ?_⟩
  · refine configFromVolumeContext_eq hash (configFromParams_parsed hcfg) ?_
    intro key hk
    rw [hget key (List.mem_append_left _ hk)]
    exact volumeContext_get_of_config hash params cfg encrypted hk
  · rw [hget _ (by decide), volumeContext_get_encrypted, henc]
    cases encrypted <;> simp
  · rintro rfl
    rw [← hfmt]
    refine formatFromParams_congr true ?_
    intro key hk
    rw [hget key (List.mem_append_right _ (List.mem_cons_of_mem _ hk))]
    exact volumeContext_get_format hash params cfg hk

theorem volumeContext_read_back_encrypted :
    ∃ params : Params, configFromParams params = .ok (.nfs "nas" "/x" "" "team/db") ∧
      configFromVolumeContext (("pod", []) ::
        volumeContext id params (.nfs "nas" "/x" "" "team/db") true) =
          .ok (.nfs "nas" "/x" "" "team/db") := by
  have hcfg : configFromParams [(paramType, "nfs"), (paramNFSServer, "nas"), (paramNFSPath, "/x"),
      (paramNFSSubDir, "./$\x7bpvc.namespace\x7d//db"), (paramPVCNamespace, "team"),
      (paramEncrypted, "true"), (paramKeySize, "256")] = .ok (.nfs "nas" "/x" "" "team/db") := by
    decide
  refine ⟨_, hcfg, ?_⟩
  exact (@volumeContext_read_back id _ [("pod", [])] _ true { Crypt.defaultFormat with keySize := 256 }
    hcfg (by decide) (by decide) (by decide)).1

end Fileblock.Controller
