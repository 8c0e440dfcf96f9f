import Buyback.Source.Derivation

/-!
# Derivation paths

A path is accepted exactly if it is one or more segments, each behind two slashes, that
are not empty and have no slash.  It has one such reading, and its chain codes are those
of the segments in order.  The mini secret is derived from the root by one hard derivation
for each, so a path that goes on behind another derives from the mini secret of the first.
-/

namespace Buyback

/-- A path as its segments. -/
structure HardPath (path : String) (segments : List String) : Prop where
  ne_nil : segments ≠ []
  /-- No segment is empty, and none has a slash. -/
  segment : ∀ s ∈ segments, s ≠ "" ∧ '/' ∉ s.toList
  /-- Each segment stands behind two slashes. -/
  text : path.toList = segments.flatMap fun s => '/' :: '/' :: s.toList

namespace HardPath

variable {path path' : String} {segments segments' : List String}

/-- One path behind another is a path. -/
theorem append (h : HardPath path segments) (h' : HardPath path' segments') :
    HardPath (path ++ path') (segments ++ segments') := by
  refine ⟨List.append_ne_nil_of_left_ne_nil h.ne_nil _, fun s hs => ?_, ?_⟩
  · rcases List.mem_append.mp hs with hs | hs
    · exact h.segment s hs
    · exact h'.segment s hs
  · rw [String.toList_append, h.text, h'.text, List.flatMap_append]

/-- What stands behind the first two slashes, is split into the segments. -/
theorem pairs (h : HardPath path segments) : ∃ rest,
    stripSlashes path.toList = some rest ∧
      Split.pairs '/' rest = segments.map String.toList := by
  obtain ⟨hne, hsegment, htext⟩ := h
  cases segments with
  | nil => exact absurd rfl hne
  | cons s segments =>
      obtain ⟨hs, hsegments⟩ := List.forall_mem_cons.mp hsegment
      refine ⟨s.toList ++ (segments.map String.toList).flatMap fun s => '/' :: '/' :: s, ?_, ?_⟩
      · rw [htext, List.flatMap_cons, List.flatMap_map]
        rfl
      · rw [Split.pairs_flatMap hs.2, List.map_cons]
        intro p hp
        obtain ⟨s, hs, rfl⟩ := List.mem_map.mp hp
        exact (hsegments s hs).2

theorem unique (h : HardPath path segments) (h' : HardPath path segments') :
    segments = segments' := by
  obtain ⟨rest, hrest, hpairs⟩ := h.pairs
  obtain ⟨rest', hrest', hpairs'⟩ := h'.pairs
  cases hrest.symm.trans hrest'
  exact List.map_injective_iff.mpr (fun _ _ => String.toList_injective) (hpairs.symm.trans hpairs')

/-- Pieces that are not empty and have no slash are the segments. -/
theorem of_pairs {rest : List Char} (hrest : stripSlashes path.toList = some rest)
    (h : ∀ p ∈ Split.pairs '/' rest, p ≠ [] ∧ '/' ∉ p) :
    HardPath path ((Split.pairs '/' rest).map String.ofList) := by
  obtain ⟨p, ps, hps, hjoin⟩ := Split.pairs_join (d := '/') rest
  refine ⟨?_, fun s hs => ?_, ?_⟩
  · rw [hps]
    nofun
  · obtain ⟨p, hp, rfl⟩ := List.mem_map.mp hs
    obtain ⟨hne, hslash⟩ := h p hp
    rw [String.toList_ofList]
    refine ⟨fun hempty => hne ?_, hslash⟩
    rw [← String.toList_ofList (l := p), hempty, String.toList_empty]
  · have hpath : path.toList = '/' :: '/' :: rest := by
      unfold stripSlashes at hrest
      split at hrest
      next heq =>
        cases hrest
        exact heq
      next => cases hrest
    rw [hpath, hps, List.map_cons, List.flatMap_cons, List.flatMap_map, String.toList_ofList,
      List.cons_append, List.cons_append]
    simp only [String.toList_ofList, hjoin]

end HardPath

section

variable [StdTexts] [DeriveJunction]

/-- The chain code of a segment. -/
def chainCode (segment : String) : Bytes32 := (DeriveJunction.junction ("/" ++ segment)).inner

variable {path : String} {segments : List String} {codes : List Bytes32}

theorem hardJunction_ok {j : List Char} (h : j ≠ [] ∧ '/' ∉ j) :
    hardJunction path j = .ok (chainCode (String.ofList j)) := by
  have hhard : (DeriveJunction.junction ("/" ++ String.ofList j)).isHard ≠ false := by
    rw [DeriveJunction.isHard_junction]
    decide
  rw [hardJunction, if_neg (not_or.mpr h)]
  exact if_neg hhard

theorem hardJunction_bad {j : List Char} (h : ¬ (j ≠ [] ∧ '/' ∉ j)) :
    hardJunction path j = .error (badPath path) := by
  rw [hardJunction, if_pos]
  rwa [not_and_or, not_not, not_not] at h

/-- Pieces that are all segments give their chain codes in order. -/
theorem mapM_hardJunction_ok (path : String) {ps : List (List Char)}
    (h : ∀ p ∈ ps, p ≠ [] ∧ '/' ∉ p) :
    ps.mapM (hardJunction path) = .ok (ps.map fun p => chainCode (String.ofList p)) := by
  induction ps with
  | nil => rfl
  | cons p ps ih =>
      obtain ⟨hp, hps⟩ := List.forall_mem_cons.mp h
      rw [List.mapM_cons, Result.ok_bind (hardJunction_ok hp), Result.ok_bind (ih hps)]
      rfl

/-- A piece that is no segment is refused, whatever stands around it. -/
theorem mapM_hardJunction_bad {ps : List (List Char)} (h : ¬ ∀ p ∈ ps, p ≠ [] ∧ '/' ∉ p) :
    ps.mapM (hardJunction path) = .error (badPath path) := by
  induction ps with
  | nil => exact absurd nofun h
  | cons p ps ih =>
      rw [List.mapM_cons]
      by_cases hp : p ≠ [] ∧ '/' ∉ p
      · rw [List.forall_mem_cons, not_and] at h
        rw [Result.ok_bind (hardJunction_ok hp), ih (h hp)]
        rfl
      · rw [hardJunction_bad hp]
        rfl

theorem HardPath.hardJunctions (h : HardPath path segments) :
    hardJunctions path = .ok (segments.map chainCode) := by
  obtain ⟨rest, hrest, hpairs⟩ := h.pairs
  have hpieces : ∀ p ∈ Split.pairs '/' rest, p ≠ [] ∧ '/' ∉ p := by
    rw [hpairs]
    intro p hp
    obtain ⟨s, hs, rfl⟩ := List.mem_map.mp hp
    obtain ⟨hne, hslash⟩ := h.segment s hs
    exact ⟨fun hempty => hne (String.toList_eq_nil_iff.mp hempty), hslash⟩
  have hcodes := mapM_hardJunction_ok path hpieces
  simp only [hpairs, List.map_map, Function.comp_def, String.ofList_toList] at hcodes
  rw [Buyback.hardJunctions, hrest]
  dsimp only
  rw [hpairs, hcodes]

/-- What is no path is refused. -/
theorem hardJunctions_refused (h : ∀ segments, ¬ HardPath path segments) :
    hardJunctions path = .error (badPath path) := by
  rw [hardJunctions]
  split
  next => rfl
  next rest hrest =>
    exact mapM_hardJunction_bad fun hpieces => h _ (HardPath.of_pairs hrest hpieces)

theorem hardJunctions_ok_iff : hardJunctions path = .ok codes ↔
    ∃ segments, HardPath path segments ∧ segments.map chainCode = codes := by
  constructor
  · intro h
    by_contra hnone
    rw [hardJunctions_refused fun segments hpath => ?_] at h
    · cases h
    · cases hpath.hardJunctions.symm.trans h
      exact hnone ⟨segments, hpath, rfl⟩
  · rintro ⟨segments, hpath, rfl⟩
    exact hpath.hardJunctions

/-- One key from another along segments, with a hard derivation for each. -/
inductive Derives [Schnorrkel] :
    Schnorrkel.MiniSecretKey → List String → Schnorrkel.MiniSecretKey → Prop where
  | nil {mini : Schnorrkel.MiniSecretKey} : Derives mini [] mini
  | cons {mini last : Schnorrkel.MiniSecretKey} {segment : String} {segments : List String} :
      Derives (Schnorrkel.hardDeriveMiniSecretKey (Schnorrkel.expand mini) (chainCode segment))
        segments last →
      Derives mini (segment :: segments) last

omit [StdTexts] in
theorem derives_iff [Schnorrkel] {mini last : Schnorrkel.MiniSecretKey} :
    Derives mini segments last ↔
      (segments.map chainCode).foldl
        (fun mini cc => Schnorrkel.hardDeriveMiniSecretKey (Schnorrkel.expand mini) cc) mini =
          last := by
  induction segments generalizing mini with
  | nil =>
      constructor
      · rintro ⟨⟩
        rfl
      · rintro rfl
        exact .nil
  | cons segment segments ih =>
      rw [List.map_cons, List.foldl_cons, ← ih]
      constructor
      · rintro (_ | h)
        exact h
      · exact .cons

namespace DerivationSeed

variable [Schnorrkel] {seed : DerivationSeed} {path' : String} {segments' : List String}

/-- A path derives its mini secret from the root, segment by segment. -/
theorem deriveMini_ok_iff {mini : Bytes32} (h : HardPath path segments) :
    seed.deriveMini path = .ok mini ↔
      ∃ root last, Schnorrkel.fromBytes seed.root = some root ∧ Derives root segments last ∧
        Schnorrkel.toBytes last = mini := by
  rw [deriveMini, Result.ok_bind h.hardJunctions]
  cases Schnorrkel.fromBytes seed.root with
  | none => exact ⟨nofun, nofun⟩
  | some root =>
      simp only [derives_iff, Except.ok.injEq, Option.some.injEq, exists_and_left, exists_eq_left']

/-- Deriving along one path behind another is deriving twice. -/
theorem deriveMini_append (h : HardPath path segments) (h' : HardPath path' segments') :
    seed.deriveMini (path ++ path') =
      seed.deriveMini path >>= fun mini => DerivationSeed.deriveMini ⟨mini⟩ path' := by
  simp only [deriveMini]
  rw [Result.ok_bind (h.append h').hardJunctions, Result.ok_bind h.hardJunctions]
  cases Schnorrkel.fromBytes seed.root with
  | none => rfl
  | some root =>
      rw [Result.ok_bind rfl, Result.ok_bind h'.hardJunctions]
      simp only [Schnorrkel.fromBytes_toBytes, List.map_append, List.foldl_append]

/-- What is no path is refused before the root is read. -/
theorem deriveMini_refused (h : ∀ segments, ¬ HardPath path segments) :
    seed.deriveMini path = .error (badPath path) := by
  rw [deriveMini, hardJunctions_refused h]
  rfl

end DerivationSeed

/-- Exactly the paths of hard segments are accepted, with one chain code a segment.  They
derive from the root segment by segment, so in steps too, and everything else is refused
before any key is derived. -/
theorem derivation_paths [Schnorrkel] (path : String) :
    (∀ codes, hardJunctions path = .ok codes ↔
      ∃ segments, HardPath path segments ∧ segments.map chainCode = codes) ∧
    (∀ segments, HardPath path segments →
      (∀ segments', HardPath path segments' → segments' = segments) ∧
      (∀ (seed : DerivationSeed) mini, seed.deriveMini path = .ok mini ↔
        ∃ root last, Schnorrkel.fromBytes seed.root = some root ∧ Derives root segments last ∧
          Schnorrkel.toBytes last = mini) ∧
      ∀ path' segments', HardPath path' segments' →
        HardPath (path ++ path') (segments ++ segments') ∧
        ∀ seed : DerivationSeed, seed.deriveMini (path ++ path') =
          seed.deriveMini path >>= fun mini => DerivationSeed.deriveMini ⟨mini⟩ path') ∧
    ((∀ segments, ¬ HardPath path segments) →
      hardJunctions path = .error (badPath path) ∧
      ∀ seed : DerivationSeed, seed.deriveMini path = .error (badPath path)) :=
  ⟨fun _ => hardJunctions_ok_iff,
    fun _ h => ⟨fun _ h' => h'.unique h, fun _ _ => DerivationSeed.deriveMini_ok_iff h,
      fun _ _ h' => ⟨h.append h', fun _ => DerivationSeed.deriveMini_append h h'⟩⟩,
    fun h => ⟨hardJunctions_refused h, fun _ => DerivationSeed.deriveMini_refused h⟩⟩

end

end Buyback
