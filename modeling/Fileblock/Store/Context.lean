import Fileblock.Store.Identity
import Fileblock.Store.Layout

/-! The volume context a config is written into, and that parsing it gives the
config back: a resolved subDir resolves to itself, whatever metadata is at hand. -/
namespace Fileblock.Store
open Go

def volumeContextStoreID := "storeID"

/-- The field under `key`, left out when it is empty. -/
def optionalField (key : String) (value : Str) : Params := if value = [] then [] else [(key, value)]

def Config.toVolumeContext (hash : Str → Str) (c : Config) : Params :=
  match c with
  | .nfs server path options sub =>
    (paramType, "nfs".toList) :: (volumeContextStoreID, c.storeID hash) ::
      (paramNFSServer, server) :: (paramNFSPath, path) ::
      (optionalField paramNFSMountOptions options ++ optionalField paramNFSSubDir sub)
  | .localDir path shared =>
    (paramType, "local".toList) :: (volumeContextStoreID, c.storeID hash) ::
      (paramLocalPath, path) ::
      optionalField paramLocalShared (if shared then "true" else "")

/-- The parameter keys a config is read from. -/
def configKeys : List String :=
  [paramType, paramNFSServer, paramNFSPath, paramNFSMountOptions, paramNFSSubDir, paramLocalPath,
    paramLocalShared]

theorem Params.get_append (p q : Params) (key : String) :
    Params.get (p ++ q) key = if (p.lookup key).isSome then p.get key else q.get key := by
  unfold Params.get
  rw [List.lookup_append]
  cases p.lookup key <;> simp

theorem Params.get_append_of_notMem {p : Params} (q : Params) {key : String}
    (h : ∀ e ∈ p, e.1 ≠ key) : Params.get (p ++ q) key = q.get key := by
  have hn : p.lookup key = none := by
    rw [List.lookup_eq_none_iff]
    intro e he
    simpa using (h e he).symm
  rw [get_append, hn]
  rfl

@[simp] theorem Params.get_nil (key : String) : Params.get [] key = [] := rfl

@[simp] theorem Params.get_cons (key k : String) (v : Str) (p : Params) :
    Params.get ((k, v) :: p) key = if key = k then v else p.get key := by
  unfold Params.get
  rw [List.lookup_cons]
  by_cases h : key = k
  · simp [h]
  · rw [if_neg h, beq_false_of_ne h]

@[simp] theorem Params.get_optionalField_append (key k : String) (v : Str) (p : Params) :
    Params.get (optionalField k v ++ p) key = if key = k ∧ v ≠ [] then v else p.get key := by
  unfold optionalField
  by_cases hv : v = []
  · simp [hv]
  · simp [hv]

@[simp] theorem Params.get_optionalField (key k : String) (v : Str) :
    (optionalField k v).get key = if key = k then v else [] := by
  unfold optionalField
  by_cases hv : v = []
  · simp [hv]
  · simp [hv]

/-- The template tokens all start with this. -/
def templateStart : Str := "$\x7b"

theorem unresolvedTemplate_eq_none_iff (s : Str) :
    unresolvedTemplate s = none ↔ ¬ templateStart <:+: s := by
  unfold unresolvedTemplate
  rw [Option.map_eq_none_iff]
  exact index_eq_none_iff s templateStart

theorem substitute_eq_self (params : Params) {s template : Str} (key : String)
    (hs : ¬ templateStart <:+: s) (ht : templateStart <+: template) :
    substitute params s template key = s := by
  unfold substitute
  split_ifs
  · rfl
  · exact replaceAll_eq_self _ fun h => hs (ht.isInfix.trans h)

/-- A path that is already what a subDir is resolved to. -/
structure Resolved (sub : Str) : Prop where
  noTemplate : ¬ templateStart <:+: sub
  noNul : Char.ofNat 0 ∉ sub
  relative : isAbs sub = false
  noTraversal : ['.', '.'] ∉ split sub '/'
  clean_eq : clean sub = sub
  ne_dot : sub ≠ ['.']

theorem Resolved.resolve {sub : Str} (h : Resolved sub) (params : Params) :
    resolveSubDir sub params = .ok sub := by
  unfold resolveSubDir
  split_ifs with hn
  · rw [hn]
  · have h1 := substitute_eq_self params paramPVCNamespace h.noTemplate
      (show templateStart <+: tmplPVCNamespace by decide)
    have h2 := substitute_eq_self params paramPVCName h.noTemplate
      (show templateStart <+: tmplPVCName by decide)
    have h3 := substitute_eq_self params paramPVName h.noTemplate
      (show templateStart <+: tmplPVName by decide)
    have hu := (unresolvedTemplate_eq_none_iff sub).mpr h.noTemplate
    simp only [h1, h2, h3, hu, h.noNul, h.relative, h.noTraversal, h.clean_eq, h.ne_dot, if_false,
      Bool.false_eq_true]

theorem clean_intercalate {es : List Str} (h : ∀ e ∈ es, Proper e) (hn : es ≠ []) :
    isAbs (['/'].intercalate es) = false ∧ split (['/'].intercalate es) '/' = es ∧
      clean (['/'].intercalate es) = ['/'].intercalate es := by
  obtain ⟨e, es, rfl⟩ := List.exists_cons_of_ne_nil hn
  have he := h e List.mem_cons_self
  have hrel : isAbs (['/'].intercalate (e :: es)) = false := by
    obtain ⟨c, e, rfl⟩ := List.exists_cons_of_ne_nil he.ne_nil
    have hc : c ≠ '/' := fun hc => he.noSlash (by simp [hc])
    rw [intercalate_slash, isAbs, ← Bool.not_eq_true, hasPrefix_iff]
    intro hp
    exact hc (List.cons_prefix_cons.mp hp).1.symm
  have hsplit : split (['/'].intercalate (e :: es)) '/' = e :: es :=
    List.splitOn_intercalate '/' (fun x hx => (h x hx).noSlash) (List.cons_ne_nil _ _)
  have hbody : ['/'].intercalate (e :: es) ≠ [] := by
    rw [intercalate_slash]
    simp [he.ne_nil]
  refine ⟨hrel, hsplit, ?_⟩
  unfold clean
  rw [hrel, hsplit, foldl_cleanStep h]
  simp [hbody]

theorem resolveSubDir_resolved {raw sub : Str} {params : Params}
    (h : resolveSubDir raw params = .ok sub) (hn : sub ≠ []) : Resolved sub := by
  rcases resolveSubDir_ok h with rfl | ⟨s, hu, h0, hrel, hdots, hdot, rfl⟩
  · exact absurd rfl hn
  · obtain ⟨es, hes⟩ : ∃ es, es = ((split s '/').foldl (cleanStep false) []).reverse := ⟨_, rfl⟩
    have hsub : clean s = ['/'].intercalate es := by rw [clean_relative hrel hdot, hes]
    have hmem : ∀ e ∈ es, e ∈ split s '/' := by
      intro e he
      rw [hes, List.mem_reverse] at he
      rcases mem_foldl_cleanStep he with he | he
      · exact he
      · simp at he
    have hproper : ∀ e ∈ es, Proper e := by
      intro e he
      rw [hes, List.mem_reverse] at he
      exact foldl_cleanStep_proper
        (fun x hx => ⟨not_mem_of_mem_split hx, fun hx' => hdots (hx' ▸ hx)⟩) (by simp) e he
    have hne : es ≠ [] := by
      intro h0
      exact hn (by simp [hsub, h0])
    obtain ⟨habs, hsplit, hclean⟩ := clean_intercalate hproper hne
    rw [← hsub] at habs hsplit hclean
    constructor
    · intro hi
      rw [hsub] at hi
      obtain ⟨e, he, hie⟩ := infix_of_infix_intercalate (by decide) (by decide) hi
      exact (unresolvedTemplate_eq_none_iff s).mp hu (hie.trans (infix_of_mem_split (hmem e he)))
    · intro hi
      have hi' : [Char.ofNat 0] <:+: ['/'].intercalate es := by
        rw [← hsub]
        exact (List.singleton_infix_iff _ _).mpr hi
      obtain ⟨e, he, hie⟩ := infix_of_infix_intercalate (by simp) (by decide) hi'
      exact h0 ((List.singleton_infix_iff _ _).mp (hie.trans (infix_of_mem_split (hmem e he))))
    · exact habs
    · rw [hsplit]
      intro hd
      exact (hproper _ hd).ne_dots rfl
    · exact hclean
    · exact hdot

/-- What parsing establishes about a config. -/
def Config.Parsed : Config → Prop
  | .nfs server path _ sub => server ≠ [] ∧ path ≠ [] ∧ ∀ params, resolveSubDir sub params = .ok sub
  | .localDir path _ => path ≠ []

theorem configFromParams_parsed {params : Params} {c : Config}
    (h : configFromParams params = .ok c) : c.Parsed := by
  unfold configFromParams at h
  split_ifs at h
  · unfold nfsFromParams at h
    split_ifs at h with hserver hpath
    cases hs : resolveSubDir (params.get paramNFSSubDir) params with
    | error e => simp [hs] at h
    | ok sub =>
      simp only [hs] at h
      cases h
      refine ⟨hserver, hpath, ?_⟩
      intro params'
      by_cases hn : sub = []
      · simp [hn, resolveSubDir]
      · exact (resolveSubDir_resolved hs hn).resolve params'
  · unfold localFromParams at h
    split_ifs at h with hpath
    cases h
    exact hpath

theorem configFromVolumeContext_eq (hash : Str → Str) {c : Config} (hp : c.Parsed)
    {context : Params}
    (hc : ∀ key ∈ configKeys, context.get key = (c.toVolumeContext hash).get key) :
    configFromVolumeContext context = .ok c := by
  have htype := hc paramType (by decide)
  have hsub := hc paramNFSSubDir (by decide)
  unfold configFromVolumeContext configFromParams
  cases c with
  | nfs server path options sub =>
    have hserver := hc paramNFSServer (by decide)
    have hpath := hc paramNFSPath (by decide)
    have hoptions := hc paramNFSMountOptions (by decide)
    obtain ⟨hs, hpn, hr⟩ := hp
    simp +decide only [Config.toVolumeContext, Params.get_cons, Params.get_optionalField_append,
      Params.get_optionalField, if_true, if_false, false_and] at htype hserver hpath hoptions hsub
    have hopt : context.get paramNFSMountOptions = options := by
      rw [hoptions]
      by_cases ho : options = [] <;> simp [ho]
    unfold nfsFromParams
    rw [htype, if_pos rfl, hserver, if_neg hs, hpath, if_neg hpn, hsub, hr, hopt]
  | localDir path shared =>
    have hpath := hc paramLocalPath (by decide)
    have hshared := hc paramLocalShared (by decide)
    simp +decide only [Config.toVolumeContext, Params.get_cons, Params.get_optionalField, if_true,
      if_false] at htype hpath hshared hsub
    unfold localFromParams
    rw [htype, if_neg (by decide), if_pos rfl, hpath, if_neg hp, hsub, hshared]
    cases shared <;> rfl

end Fileblock.Store
