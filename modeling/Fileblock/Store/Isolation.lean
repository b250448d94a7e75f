import Fileblock.Go.Replace
import Fileblock.Store.Identity

/-! Per-namespace directories: a subDir template with the namespace as one of its path
elements gives each namespace a directory of its own, beside those of the others. -/
namespace Fileblock.Store
open Go

def isAlphanumeric (c : Char) : Bool := ('a' ≤ c && c ≤ 'z') || ('0' ≤ c && c ≤ '9')

/-- Lower-case letters, digits and inner dashes. -/
def isDNSName (s : Str) : Bool :=
  s.all (fun c => isAlphanumeric c || c = '-') && s.head?.any isAlphanumeric &&
    s.getLast?.any isAlphanumeric

def isDNSLabel (s : Str) : Bool := isDNSName s && decide (s.length ≤ 63)

def isDNSSubdomain (s : Str) : Bool := (split s '.').all isDNSName && decide (s.length ≤ 253)

/-- What the provisioner injects are valid Kubernetes names; the last two may be missing. -/
structure Named (params : Params) : Prop where
  namespaceLabel : isDNSLabel (params.get paramPVCNamespace) = true
  pvcName : params.get paramPVCName = [] ∨ isDNSSubdomain (params.get paramPVCName) = true
  pvName : params.get paramPVName = [] ∨ isDNSSubdomain (params.get paramPVName) = true

/-- The parameters that do not come from the provisioner are the same. -/
def SameClass (params params' : Params) : Prop :=
  ∀ key, key ≠ paramPVCNamespace → key ≠ paramPVCName → key ≠ paramPVName →
    params.get key = params'.get key

/-- `b` lies below `a`. -/
def Below (a b : Str) : Prop := a ++ ['/'] <+: b

/-- Replaces a template inside a path element, and does not make the element vanish. -/
structure Value (v : Str) : Prop where
  slash : '/' ∉ v
  dollar : '$' ∉ v
  solid : ∃ c ∈ v, c ≠ '.'

theorem isDNSName_mem {s : Str} (h : isDNSName s = true) {c : Char} (hc : c ∈ s) :
    isAlphanumeric c = true ∨ c = '-' := by
  unfold isDNSName at h
  rw [Bool.and_eq_true, Bool.and_eq_true, List.all_eq_true] at h
  have := h.1.1 c hc
  simpa using this

theorem isDNSName_head {s : Str} (h : isDNSName s = true) : ∃ c ∈ s, isAlphanumeric c = true := by
  unfold isDNSName at h
  rw [Bool.and_eq_true, Bool.and_eq_true] at h
  cases s with
  | nil => exact absurd h.1.2 (by simp)
  | cons c s => exact ⟨c, List.mem_cons_self, h.1.2⟩

theorem Value.of_chars {v : Str} (h : ∀ c ∈ v, isAlphanumeric c = true ∨ c = '-' ∨ c = '.')
    (ha : ∃ c ∈ v, isAlphanumeric c = true) : Value v := by
  constructor
  · intro hc
    exact absurd (h '/' hc) (by decide)
  · intro hc
    exact absurd (h '$' hc) (by decide)
  · obtain ⟨c, hc, hac⟩ := ha
    refine ⟨c, hc, ?_⟩
    rintro rfl
    exact absurd hac (by decide)

theorem Value.of_label {v : Str} (h : isDNSLabel v = true) : Value v := by
  have hname := (Bool.and_eq_true_iff.mp h).1
  apply Value.of_chars _ (isDNSName_head hname)
  intro c hc
  rcases isDNSName_mem hname hc with h | h
  · exact Or.inl h
  · exact Or.inr (Or.inl h)

theorem Value.of_subdomain {v : Str} (h : isDNSSubdomain v = true) : Value v := by
  have hnames := List.all_eq_true.mp (Bool.and_eq_true_iff.mp h).1
  apply Value.of_chars
  · intro c hc
    rcases mem_split_of_mem '.' hc with rfl | ⟨e, he, hce⟩
    · exact Or.inr (Or.inr rfl)
    · rcases isDNSName_mem (hnames e he) hce with h | h
      · exact Or.inl h
      · exact Or.inr (Or.inl h)
  · obtain ⟨e, es, hes⟩ := List.exists_cons_of_ne_nil (List.splitOn_ne_nil '.' v)
    have he : e ∈ split v '.' := by
      unfold split
      rw [hes]
      exact List.mem_cons_self
    obtain ⟨c, hc, hac⟩ := isDNSName_head (hnames e he)
    exact ⟨c, (infix_of_mem_split he).subset hc, hac⟩

theorem Value.ne_nil {v : Str} (h : Value v) : v ≠ [] := by
  rintro rfl
  obtain ⟨c, hc, -⟩ := h.solid
  cases hc

section Element
variable {params params' : Params} {e : Str}

/-- A text with all its templates replaced. -/
def resolved (params : Params) (s : Str) : Str :=
  substitute params (substitute params (substitute params s
    tmplPVCNamespace paramPVCNamespace) tmplPVCName paramPVCName) tmplPVName paramPVName

/-- The elements that `Clean` drops. -/
def Vanishing (e : Str) : Prop := e = [] ∨ e = ['.']

theorem substitute_of_value (s template : Str) {key : String} (hv : Value (params.get key)) :
    substitute params s template key = replaceAll s template (params.get key) := if_neg hv.ne_nil

theorem vanishing_replaceAll_iff {template v : Str} (hv : Value v) (ht : '$' ∈ template) :
    Vanishing (replaceAll e template v) ↔ Vanishing e := by
  have hne : template ≠ [] := List.ne_nil_of_mem ht
  by_cases hin : template <:+: e
  · have hnot : ¬ Vanishing (replaceAll e template v) := by
      obtain ⟨c, hc, hdot⟩ := hv.solid
      have hc' : c ∈ replaceAll e template v := (infix_replaceAll hne hin).subset hc
      rintro (h | h)
      · rw [h] at hc'
        cases hc'
      · rw [h] at hc'
        exact hdot (List.mem_singleton.mp hc')
    have hnot' : ¬ Vanishing e := by
      have hd : '$' ∈ e := hin.subset ht
      rintro (h | h)
      · rw [h] at hd
        cases hd
      · rw [h] at hd
        exact absurd (List.mem_singleton.mp hd) (by decide)
    exact ⟨fun h => absurd h hnot, fun h => absurd h hnot'⟩
  · rw [replaceAll_eq_self v hin]

/-- A template that can stand in a path element. -/
structure Token (template : Str) : Prop where
  dollar : '$' ∈ template
  slash : '/' ∉ template

/-- A value that is there or missing. -/
def Injected (v : Str) : Prop := v = [] ∨ Value v

theorem vanishing_substitute_iff {template : Str} {key : String} (ht : Token template)
    (hv : Injected (params.get key)) :
    Vanishing (substitute params e template key) ↔ Vanishing e := by
  rcases hv with hv | hv
  · have hself : substitute params e template key = e := if_pos hv
    rw [hself]
  · rw [substitute_of_value _ _ hv]
    exact vanishing_replaceAll_iff hv ht.dollar

theorem split_substitute {template : Str} {key : String} (ht : Token template)
    (hv : Injected (params.get key)) (s : Str) : split (substitute params s template key) '/' =
      (split s '/').map (substitute params · template key) := by
  rcases hv with hv | hv
  · have hself : (fun e => substitute params e template key) = id := by
      funext e
      exact if_pos hv
    rw [hself, List.map_id]
    exact congrArg (split · '/') (if_pos hv)
  · have hrepl : (fun e => substitute params e template key) =
        fun e => replaceAll e template (params.get key) := by
      funext e
      exact substitute_of_value e template hv
    rw [hrepl, substitute_of_value _ _ hv]
    exact split_replaceAll (List.ne_nil_of_mem ht.dollar) ht.slash hv.slash s

theorem Named.injected (h : Named params) : Injected (params.get paramPVCNamespace) ∧
    Injected (params.get paramPVCName) ∧ Injected (params.get paramPVName) :=
  ⟨Or.inr (.of_label h.namespaceLabel), h.pvcName.imp_right .of_subdomain,
    h.pvName.imp_right .of_subdomain⟩

theorem token_namespace : Token tmplPVCNamespace := ⟨by decide, by decide⟩

theorem token_pvcName : Token tmplPVCName := ⟨by decide, by decide⟩

theorem token_pvName : Token tmplPVName := ⟨by decide, by decide⟩

theorem vanishing_resolved_iff (h : Named params) : Vanishing (resolved params e) ↔ Vanishing e := by
  obtain ⟨hns, hpvc, hpv⟩ := h.injected
  unfold resolved
  rw [vanishing_substitute_iff token_pvName hpv, vanishing_substitute_iff token_pvcName hpvc,
    vanishing_substitute_iff token_namespace hns]

/-- Templates are replaced element by element. -/
theorem split_resolved (h : Named params) (raw : Str) :
    split (resolved params raw) '/' = (split raw '/').map (resolved params) := by
  obtain ⟨hns, hpvc, hpv⟩ := h.injected
  unfold resolved
  rw [split_substitute token_pvName hpv, split_substitute token_pvcName hpvc,
    split_substitute token_namespace hns, List.map_map, List.map_map]
  rfl

theorem elems_resolved (h : Named params) (raw : Str) :
    elems (resolved params raw) = (elems raw).map (resolved params) := by
  unfold elems
  rw [split_resolved h, List.filter_map]
  congr 1
  apply List.filter_congr
  intro e _
  have hv := vanishing_resolved_iff (e := e) h
  unfold Vanishing at hv
  simp only [Function.comp_apply, decide_eq_decide, ← not_or]
  exact not_congr hv

theorem resolved_namespace (h : Named params) :
    resolved params tmplPVCNamespace = params.get paramPVCNamespace := by
  have hns : Value (params.get paramPVCNamespace) := .of_label h.namespaceLabel
  have hkeep : ∀ {template : Str} {key : String}, Token template →
      substitute params (params.get paramPVCNamespace) template key =
        params.get paramPVCNamespace := by
    intro template key ht
    unfold substitute
    split_ifs
    · rfl
    · exact replaceAll_eq_self _ fun hin => hns.dollar (hin.subset ht.dollar)
  unfold resolved
  rw [substitute_of_value _ _ hns, replaceAll_self (by decide), hkeep token_pvcName,
    hkeep token_pvName]

theorem resolveSubDir_elems {raw sub : Str} (hraw : raw ≠ []) (h : resolveSubDir raw params = .ok sub) :
    sub = ['/'].intercalate (elems (resolved params raw)) ∧ elems (resolved params raw) ≠ [] := by
  unfold resolveSubDir at h
  rw [if_neg hraw, ← resolved] at h
  dsimp only at h
  cases ht : unresolvedTemplate (resolved params raw) with
  | some t =>
    rw [ht] at h
    cases h
  | none =>
    rw [ht] at h
    dsimp only at h
    split_ifs at h with hnul habs hdots hroot
    have hrel : isAbs (resolved params raw) = false := by simpa using habs
    have hne : elems (resolved params raw) ≠ [] := fun hnil =>
      hroot (clean_of_elems_nil hrel hdots hnil)
    rw [clean_of_relative hrel hdots hne] at h
    exact ⟨(Except.ok.inj h).symm, hne⟩

theorem split_intercalate_elems {p : Str} (hne : elems p ≠ []) :
    split (['/'].intercalate (elems p)) '/' = elems p := by
  apply List.splitOn_intercalate '/' _ hne
  intro e he
  exact not_mem_of_mem_split (List.mem_of_mem_filter he)

theorem Below.length_lt {a b : Str} (h : Below a b) :
    (split a '/').length < (split b '/').length := by
  obtain ⟨t, rfl⟩ := h
  have hsplit : split (a ++ ['/'] ++ t) '/' = split a '/' ++ split t '/' := by
    rw [List.append_assoc]
    exact split_append a t '/'
  have ht : 0 < (split t '/').length := List.length_pos_iff.mpr (List.splitOn_ne_nil '/' t)
  rw [hsplit, List.length_append]
  omega

/-- The subDirs of two namespaces have as many elements, and differ in the one that is the
namespace. -/
theorem subDirs_apart {raw sub sub' : Str} (ht : tmplPVCNamespace ∈ split raw '/')
    (h : Named params) (h' : Named params')
    (hns : params.get paramPVCNamespace ≠ params'.get paramPVCNamespace)
    (hsub : resolveSubDir raw params = .ok sub) (hsub' : resolveSubDir raw params' = .ok sub') :
    sub ≠ sub' ∧ ¬ Below sub sub' ∧ ¬ Below sub' sub := by
  have hraw : raw ≠ [] := by
    rintro rfl
    exact absurd ht (by decide)
  obtain ⟨rfl, hne⟩ := resolveSubDir_elems hraw hsub
  obtain ⟨rfl, hne'⟩ := resolveSubDir_elems hraw hsub'
  have helem : tmplPVCNamespace ∈ elems raw := List.mem_filter.mpr ⟨ht, by decide⟩
  have hlen : (elems (resolved params raw)).length = (elems (resolved params' raw)).length := by
    rw [elems_resolved h, elems_resolved h', List.length_map, List.length_map]
  refine ⟨?_, ?_, ?_⟩
  · intro heq
    have hsplit := congrArg (split · '/') heq
    rw [split_intercalate_elems hne, split_intercalate_elems hne', elems_resolved h,
      elems_resolved h', List.map_inj_left] at hsplit
    have hval := hsplit _ helem
    rw [resolved_namespace h, resolved_namespace h'] at hval
    exact hns hval
  · intro hb
    have hlt := hb.length_lt
    rw [split_intercalate_elems hne, split_intercalate_elems hne'] at hlt
    omega
  · intro hb
    have hlt := hb.length_lt
    rw [split_intercalate_elems hne, split_intercalate_elems hne'] at hlt
    omega

theorem resolveSubDir_ne_nil {raw sub : Str} (hraw : raw ≠ [])
    (h : resolveSubDir raw params = .ok sub) : sub ≠ [] := by
  obtain ⟨rfl, hne⟩ := resolveSubDir_elems hraw h
  obtain ⟨e, es, hes⟩ := List.exists_cons_of_ne_nil hne
  have he : e ∈ elems (resolved params raw) := by
    rw [hes]
    exact List.mem_cons_self
  have hkept : e ≠ [] ∧ e ≠ ['.'] := by simpa [elems] using List.of_mem_filter he
  rw [hes]
  exact intercalate_ne_nil hkept.1 es

theorem configFromParams_nfs {c : Config} (hraw : params.get paramNFSSubDir ≠ [])
    (h : configFromParams params = .ok c) :
    ∃ sub, resolveSubDir (params.get paramNFSSubDir) params = .ok sub ∧
      c = .nfs (params.get paramNFSServer) (params.get paramNFSPath)
        (params.get paramNFSMountOptions) sub := by
  unfold configFromParams at h
  split_ifs at h with hnfs hlocal hnone
  · unfold nfsFromParams at h
    split_ifs at h
    cases hsub : resolveSubDir (params.get paramNFSSubDir) params with
    | error e =>
      rw [hsub] at h
      cases h
    | ok sub =>
      rw [hsub] at h
      exact ⟨sub, rfl, (Except.ok.inj h).symm⟩
  · unfold localFromParams at h
    split_ifs at h

/-- Two claims of one class in different namespaces, whatever they and their volumes are
called: their subDirs lie side by side, and so their stores differ while they share one
mount. -/
theorem namespaces_isolated (hsame : SameClass params params') (h : Named params)
    (h' : Named params') (ht : tmplPVCNamespace ∈ split (params.get paramNFSSubDir) '/')
    (hns : params.get paramPVCNamespace ≠ params'.get paramPVCNamespace) :
    (∀ sub sub', resolveSubDir (params.get paramNFSSubDir) params = .ok sub →
        resolveSubDir (params'.get paramNFSSubDir) params' = .ok sub' →
        sub ≠ sub' ∧ ¬ Below sub sub' ∧ ¬ Below sub' sub) ∧
      ∀ c c', configFromParams params = .ok c → configFromParams params' = .ok c' →
        ∀ hash : Str → Str, c.mountID hash = c'.mountID hash ∧
          (Function.Injective hash → c.storeID hash ≠ c'.storeID hash) := by
  have hraw := hsame paramNFSSubDir (by decide) (by decide) (by decide)
  have hne : params.get paramNFSSubDir ≠ [] := by
    intro hnil
    rw [hnil] at ht
    exact absurd ht (by decide)
  have hsubs : ∀ sub sub', resolveSubDir (params.get paramNFSSubDir) params = .ok sub →
      resolveSubDir (params'.get paramNFSSubDir) params' = .ok sub' →
      sub ≠ sub' ∧ ¬ Below sub sub' ∧ ¬ Below sub' sub := by
    intro sub sub' hs hs'
    rw [← hraw] at hs'
    exact subDirs_apart ht h h' hns hs hs'
  refine ⟨hsubs, ?_⟩
  intro c c' hc hc' hash
  obtain ⟨sub, hs, rfl⟩ := configFromParams_nfs hne hc
  obtain ⟨sub', hs', rfl⟩ := configFromParams_nfs (hraw ▸ hne) hc'
  rw [hsame paramNFSServer (by decide) (by decide) (by decide),
    hsame paramNFSPath (by decide) (by decide) (by decide),
    hsame paramNFSMountOptions (by decide) (by decide) (by decide)]
  refine ⟨rfl, fun hinj heq => ?_⟩
  have hkeys := hinj heq
  have hsub := resolveSubDir_ne_nil hne hs
  have hsub' := resolveSubDir_ne_nil (hraw ▸ hne) hs'
  unfold Config.storeKey at hkeys
  dsimp only at hkeys
  rw [if_neg hsub, if_neg hsub'] at hkeys
  have htail := List.append_cancel_left hkeys
  exact (hsubs sub sub' hs hs').1 (List.cons.inj htail).2

end Element

/-- A claim of a class whose template is in tokens throughout. -/
def claimOf (ns pvc pv : String) : Params :=
  [(paramType, "nfs"), (paramNFSServer, "s"), (paramNFSPath, "/e"),
    (paramNFSSubDir, "./$\x7bpvc.namespace\x7d//$\x7bpvc.name\x7d-$\x7bpv.name\x7d"),
    (paramPVCNamespace, ns), (paramPVCName, pvc), (paramPVName, pv)]

theorem namespaces_isolated_claims :
    resolveSubDir ((claimOf "a" "b" "c").get paramNFSSubDir) (claimOf "a" "b" "c") =
        .ok "a/b-c" ∧
      resolveSubDir ((claimOf "b" "a" "c").get paramNFSSubDir) (claimOf "b" "a" "c") =
        .ok "b/a-c" ∧ ¬ Below "a/b-c" "b/a-c" := by
  have hs : resolveSubDir ((claimOf "a" "b" "c").get paramNFSSubDir) (claimOf "a" "b" "c") =
      .ok "a/b-c" := by decide +kernel
  have hs' : resolveSubDir ((claimOf "b" "a" "c").get paramNFSSubDir) (claimOf "b" "a" "c") =
      .ok "b/a-c" := by decide +kernel
  have hsame : SameClass (claimOf "a" "b" "c") (claimOf "b" "a" "c") := by
    intro key hns hpvc hpv
    simp only [Params.get, claimOf, List.lookup, beq_false_of_ne hns, beq_false_of_ne hpvc,
      beq_false_of_ne hpv]
  have h := (namespaces_isolated hsame ⟨by decide +kernel, Or.inr (by decide +kernel), Or.inr (by decide +kernel)⟩
    ⟨by decide +kernel, Or.inr (by decide +kernel), Or.inr (by decide +kernel)⟩ (by decide +kernel)
    (by decide +kernel)).1 _ _ hs hs'
  exact ⟨hs, hs', h.2.1⟩

end Fileblock.Store
