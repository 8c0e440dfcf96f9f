import Buyback.Source.Keyring

/-!
# Specs of keyrings

A spec is a list of items between commas.  An item is blank, or an entry `id:hex` with
blanks around the id and around the key, and the digits of the key may stand behind any
number of `0x`.  The parser reads exactly these specs, each as the entries of its items
in order.  So what a parsed keyring does is what it does for its list of entries.
-/

namespace Buyback

/-- There is nothing but white space. -/
def Blank (cs : List Char) : Prop := ∀ c ∈ cs, isWhiteSpace c = true

/-- Some `0x` in a row. -/
def zeroX (n : ℕ) : List Char := (List.replicate n ['0', 'x']).flatten

/-- What stands between two commas of a spec, and the entry that it lists. -/
inductive Item : List Char → Option (String × MasterKey) → Prop where
  | blank {cs : List Char} : Blank cs → Item cs none
  | entry {before gap gap' digits after : List Char} {n : ℕ} {e : String × MasterKey} :
      Blank before → validKeyId e.1 = true → Blank gap → Blank gap' →
      Hex.decode digits = some e.2.bytes → Blank after →
      Item (before ++ (e.1.toList ++ gap ++ ':' :: (gap' ++ (zeroX n ++ digits ++ after)))) (some e)

/-- The entries of the items of a spec. -/
def Lists (spec : String) (entries : List (String × MasterKey)) : Prop :=
  ∃ parts items, spec.toList = [','].intercalate parts ∧ List.Forall₂ Item parts items ∧
    items.reduceOption = entries

/-! ## The characters of a spec -/

theorem isAlphanum_range {c : Char} (h : c.isAlphanum = true) :
    65 ≤ c.toNat ∧ c.toNat ≤ 90 ∨ 97 ≤ c.toNat ∧ c.toNat ≤ 122 ∨ 48 ≤ c.toNat ∧ c.toNat ≤ 57 := by
  simp only [Char.isAlphanum, Char.isAlpha, Char.isUpper, Char.isLower, Char.isDigit,
    Bool.or_eq_true, Bool.and_eq_true, decide_eq_true_eq, UInt32.le_iff_toNat_le, ge_iff_le] at h
  exact or_assoc.mp h

theorem value_range {c : Char} (h : (Hex.value c).isSome = true) :
    48 ≤ c.toNat ∧ c.toNat ≤ 57 ∨ 97 ≤ c.toNat ∧ c.toNat ≤ 102 ∨ 65 ≤ c.toNat ∧ c.toNat ≤ 70 := by
  unfold Hex.value at h
  split at h
  next hc => exact .inl hc
  next =>
    split at h
    next hc => exact .inr (.inl hc)
    next =>
      split at h
      next hc => exact .inr (.inr hc)
      next => cases h

/-- A character of the range of letters and digits means nothing else in a spec. -/
theorem plain_of_range {c : Char} (h : 48 ≤ c.toNat ∧ c.toNat ≤ 57 ∨
    65 ≤ c.toNat ∧ c.toNat ≤ 90 ∨ 97 ≤ c.toNat ∧ c.toNat ≤ 122) :
    c ≠ ',' ∧ c ≠ ':' ∧ isWhiteSpace c = false := by
  have hcomma : ','.toNat = 44 := rfl
  have hcolon : ':'.toNat = 58 := rfl
  refine ⟨fun hc => ?_, fun hc => ?_, ?_⟩
  · rw [hc] at h
    omega
  · rw [hc] at h
    omega
  · rw [Bool.eq_false_iff]
    intro hc
    simp only [isWhiteSpace, Bool.or_eq_true, Bool.and_eq_true, decide_eq_true_iff,
      beq_iff_eq] at hc
    omega

/-- Nor does a character of a key id. -/
theorem keyChar_plain {c : Char} (h : (c.isAlphanum || c == '-' || c == '_') = true) :
    c ≠ ',' ∧ c ≠ ':' ∧ isWhiteSpace c = false := by
  rw [Bool.or_eq_true, Bool.or_eq_true, beq_iff_eq, beq_iff_eq] at h
  rcases h with (halnum | rfl) | rfl
  · have hrange := isAlphanum_range halnum
    exact plain_of_range (by omega)
  · decide
  · decide

/-- Nor does a digit of a key. -/
theorem digit_plain {c : Char} {digits : List Char} {bytes : List UInt8}
    (h : Hex.decode digits = some bytes) (hc : c ∈ digits) :
    c ≠ ',' ∧ c ≠ 'x' ∧ isWhiteSpace c = false := by
  have hrange := value_range (Hex.value_of_decode h hc)
  have hx : 'x'.toNat = 120 := rfl
  obtain ⟨hcomma, -, hspace⟩ := plain_of_range (c := c) (by omega)
  refine ⟨hcomma, fun hc => ?_, hspace⟩
  rw [hc] at hrange
  omega

theorem blank_plain {c : Char} {cs : List Char} (h : Blank cs) (hc : c ∈ cs) :
    c ≠ ',' ∧ c ≠ ':' := by
  have hspace := h c hc
  constructor
  · rintro rfl
    exact absurd hspace (by decide)
  · rintro rfl
    exact absurd hspace (by decide)

/-! ## What the parser takes off -/

theorem dropWhile_blank {l cs : List Char} (hl : Blank l)
    (h : ∀ c, cs.head? = some c → isWhiteSpace c = false) :
    (l ++ cs).dropWhile isWhiteSpace = cs := by
  rw [List.dropWhile_append_of_pos hl]
  cases cs with
  | nil => rfl
  | cons c cs => rw [List.dropWhile_cons_of_neg (by rw [h c rfl]; decide)]

/-- A text is trimmed to what begins and ends with no white space. -/
theorem trim_pad {l cs r : List Char} (hl : Blank l) (hr : Blank r)
    (hhead : ∀ c, cs.head? = some c → isWhiteSpace c = false)
    (hlast : ∀ c, cs.getLast? = some c → isWhiteSpace c = false) :
    trim (String.ofList (l ++ (cs ++ r))) = String.ofList cs := by
  have hr' : Blank r.reverse := fun c hc => hr c (List.mem_reverse.mp hc)
  have hlast' : ∀ c, cs.reverse.head? = some c → isWhiteSpace c = false := by
    rwa [List.head?_reverse]
  rw [trim, String.toList_ofList, List.dropWhile_append_of_pos hl]
  cases cs with
  | nil =>
      rw [List.nil_append, List.dropWhile_eq_nil_iff.mpr hr]
      rfl
  | cons c cs =>
      rw [List.cons_append, List.dropWhile_cons_of_neg (by rw [hhead c rfl]; decide),
        ← List.cons_append, List.reverse_append, dropWhile_blank hr' hlast', List.reverse_reverse]

/-- What is taken off is white space. -/
theorem trim_split (cs : List Char) : ∃ l r, Blank l ∧ Blank r ∧
    cs = l ++ ((trim (String.ofList cs)).toList ++ r) := by
  refine ⟨cs.takeWhile isWhiteSpace,
    ((cs.dropWhile isWhiteSpace).reverse.takeWhile isWhiteSpace).reverse,
    fun c hc => List.mem_takeWhile_imp hc,
    fun c hc => List.mem_takeWhile_imp (List.mem_reverse.mp hc), ?_⟩
  rw [trim, String.toList_ofList, String.toList_ofList, ← List.reverse_append,
    List.takeWhile_append_dropWhile, List.reverse_reverse, List.takeWhile_append_dropWhile]

theorem trim_blank_iff {cs : List Char} : trim (String.ofList cs) = "" ↔ Blank cs := by
  constructor
  · intro h
    obtain ⟨l, r, hl, hr, heq⟩ := trim_split cs
    rw [h, String.toList_empty, List.nil_append] at heq
    intro c hc
    rw [heq] at hc
    exact (List.mem_append.mp hc).elim (hl c) (hr c)
  · intro h
    have htrim := @trim_pad cs [] [] h nofun nofun nofun
    rw [List.nil_append, List.append_nil] at htrim
    rw [htrim, String.ofList_nil]

theorem stripZeroX_split (cs : List Char) : ∃ n, cs = zeroX n ++ stripZeroX cs := by
  induction cs using stripZeroX.induct with
  | case1 rest ih =>
      obtain ⟨n, hn⟩ := ih
      refine ⟨n + 1, ?_⟩
      rw [stripZeroX, zeroX, List.replicate_succ, List.flatten_cons, List.append_assoc, ← zeroX,
        ← hn]
      rfl
  | case2 cs h =>
      have hkeep : stripZeroX cs = cs := by
        rw [stripZeroX]
        exact h
      refine ⟨0, ?_⟩
      rw [hkeep]
      rfl

theorem stripZeroX_zeroX {cs : List Char} (n : ℕ) (h : 'x' ∉ cs) :
    stripZeroX (zeroX n ++ cs) = cs := by
  induction n with
  | zero =>
      change stripZeroX cs = cs
      rw [stripZeroX]
      rintro rest rfl
      exact h (by simp)
  | succ n ih =>
      rw [zeroX, List.replicate_succ, List.flatten_cons, List.append_assoc, ← zeroX]
      exact ih

/-! ## What the parser reads -/

theorem fromHex_iff {cs : List Char} {key : MasterKey} :
    MasterKey.fromHex (String.ofList cs) = .ok key ↔ ∃ gap n digits after, Blank gap ∧
      Blank after ∧ Hex.decode digits = some key.bytes ∧
      cs = gap ++ (zeroX n ++ digits ++ after) := by
  rw [MasterKey.fromHex]
  constructor
  · intro h
    split at h
    next => cases h
    next bytes hbytes =>
      split at h
      next hlength =>
        cases h
        obtain ⟨gap, after, hgap, hafter, hcs⟩ := trim_split cs
        obtain ⟨n, hn⟩ := stripZeroX_split (trim (String.ofList cs)).toList
        refine ⟨gap, n, _, after, hgap, hafter, hbytes, ?_⟩
        rw [← hn]
        exact hcs
      next => cases h
  · rintro ⟨gap, n, digits, after, hgap, hafter, hdigits, rfl⟩
    have hplain {c : Char} (hc : c ∈ zeroX n ++ digits) : isWhiteSpace c = false := by
      rcases List.mem_append.mp hc with hc | hc
      · obtain ⟨l, hl, hc⟩ := List.mem_flatten.mp hc
        rw [List.eq_of_mem_replicate hl] at hc
        simp only [List.mem_cons, List.not_mem_nil, or_false] at hc
        rcases hc with rfl | rfl <;> decide
      · exact (digit_plain hdigits hc).2.2
    rw [trim_pad hgap hafter (fun c hc => hplain (List.mem_of_head? hc))
      (fun c hc => hplain (List.mem_of_getLast? hc)), String.toList_ofList,
      stripZeroX_zeroX n fun hx => (digit_plain hdigits hx).2.1 rfl, hdigits]
    exact dif_pos key.length_eq

theorem parseEntry_iff {cs : List Char} {e : String × MasterKey} :
    parseEntry (String.ofList cs) = .ok e ↔ ∃ id hex, cs = id ++ ':' :: hex ∧ ':' ∉ id ∧
      trim (String.ofList id) = e.1 ∧ MasterKey.fromHex (String.ofList hex) = .ok e.2 := by
  rw [parseEntry, String.toList_ofList, List.span_eq_takeWhile_dropWhile]
  constructor
  · intro h
    split at h
    next => cases h
    next id c hex heq =>
      obtain ⟨hid, hrest⟩ := Prod.mk.inj heq
      obtain ⟨key, hkey, ⟨⟩⟩ := Result.bind_ok h
      have hcolon : c = ':' := by
        have hdrop := List.head?_dropWhile_not (fun c => decide (c ≠ ':')) cs
        rw [hrest] at hdrop
        simpa using hdrop
      refine ⟨id, hex, ?_, fun hmem => ?_, rfl, hkey⟩
      · rw [← hcolon, ← hid, ← hrest, List.takeWhile_append_dropWhile]
      · rw [← hid] at hmem
        exact absurd (List.mem_takeWhile_imp hmem) (by decide)
  · rintro ⟨id, hex, rfl, hid, htrim, hkey⟩
    have hid' : ∀ c ∈ id, decide (c ≠ ':') = true :=
      fun c hc => decide_eq_true (ne_of_mem_of_not_mem hc hid)
    rw [List.takeWhile_append_of_pos hid', List.dropWhile_append_of_pos hid',
      List.takeWhile_cons_of_neg (by decide), List.dropWhile_cons_of_neg (by decide),
      List.append_nil]
    refine (Result.ok_bind hkey).trans ?_
    rw [htrim]

/-! ## Items -/

theorem validKeyId_iff {id : String} : validKeyId id = true ↔
    id.toList ≠ [] ∧ ∀ c ∈ id.toList, (c.isAlphanum || c == '-' || c == '_') = true := by
  rw [validKeyId, Bool.and_eq_true, List.all_eq_true, decide_eq_true_iff, ne_eq, ne_eq,
    String.toList_eq_nil_iff]

/-- The ends of an entry without the white space around it. -/
theorem entry_ends {id gap gap' digits : List Char} {n : ℕ} {bytes : List UInt8}
    (hid : id ≠ []) (hplain : ∀ c ∈ id, isWhiteSpace c = false)
    (hdigits : Hex.decode digits = some bytes) (hbytes : bytes ≠ []) :
    (∀ c, (id ++ gap ++ ':' :: (gap' ++ (zeroX n ++ digits))).head? = some c →
      isWhiteSpace c = false) ∧
    ∀ c, (id ++ gap ++ ':' :: (gap' ++ (zeroX n ++ digits))).getLast? = some c →
      isWhiteSpace c = false := by
  have hne : digits ≠ [] := by
    rintro rfl
    exact hbytes (Option.some.inj hdigits).symm
  constructor
  · intro c hc
    rw [List.append_assoc, List.head?_append_of_ne_nil _ hid] at hc
    exact hplain c (List.mem_of_head? hc)
  · intro c hc
    have hlast : (id ++ gap ++ ':' :: (gap' ++ (zeroX n ++ digits))).getLast? =
        digits.getLast? := by
      rw [← List.append_assoc, ← List.cons_append, ← List.append_assoc,
        List.getLast?_append_of_ne_nil _ hne]
    rw [hlast] at hc
    exact (digit_plain hdigits (List.mem_of_getLast? hc)).2.2

/-- An entry is not blank and is read as one. -/
theorem Item.reads {cs : List Char} {e : String × MasterKey} (h : Item cs (some e)) :
    trim (String.ofList cs) ≠ "" ∧ parseEntry (trim (String.ofList cs)) = .ok e ∧
      validKeyId e.1 = true := by
  cases h with
  | @entry before gap gap' digits after n _ hbefore hvalid hgap hgap' hdigits hafter =>
    obtain ⟨hid, hchars⟩ := validKeyId_iff.mp hvalid
    have hplain (c : Char) (hc : c ∈ e.1.toList) := keyChar_plain (hchars c hc)
    have hbytes : e.2.bytes ≠ [] := fun h => absurd e.2.length_eq (by rw [h]; decide)
    obtain ⟨hhead, hlast⟩ := @entry_ends e.1.toList gap gap' digits n _ hid
      (fun c hc => (hplain c hc).2.2) hdigits hbytes
    have htrim := trim_pad hbefore hafter hhead hlast
    rw [show e.1.toList ++ gap ++ ':' :: (gap' ++ (zeroX n ++ digits)) ++ after =
      e.1.toList ++ gap ++ ':' :: (gap' ++ (zeroX n ++ digits ++ after)) by simp] at htrim
    rw [htrim]
    refine ⟨fun hempty => ?_, parseEntry_iff.mpr ⟨_, _, rfl, fun hc => ?_, ?_, ?_⟩, hvalid⟩
    · have := congrArg String.toList hempty
      rw [String.toList_ofList] at this
      simp at this
    · exact (List.mem_append.mp hc).elim (fun hc => (hplain _ hc).2.1 rfl)
        fun hc => (blank_plain hgap hc).2 rfl
    · have hid := @trim_pad [] e.1.toList gap nofun hgap
        (fun c hc => (hplain c (List.mem_of_head? hc)).2.2)
        fun c hc => (hplain c (List.mem_of_getLast? hc)).2.2
      rw [List.nil_append, String.ofList_toList] at hid
      exact hid
    · exact fromHex_iff.mpr ⟨gap', n, digits, [], hgap', nofun, hdigits, by
        rw [List.append_nil]⟩

/-- What is read as an entry with a valid id is one. -/
theorem Item.of_reads {cs : List Char} {e : String × MasterKey}
    (hparse : parseEntry (trim (String.ofList cs)) = .ok e) (hvalid : validKeyId e.1 = true) :
    Item cs (some e) := by
  obtain ⟨before, after, hbefore, hafter, hcs⟩ := trim_split cs
  rw [← String.ofList_toList (s := trim (String.ofList cs))] at hparse
  obtain ⟨id, hex, hentry, -, hid, hhex⟩ := parseEntry_iff.mp hparse
  obtain ⟨gap', n, digits, after', hgap', hafter', hdigits, rfl⟩ := fromHex_iff.mp hhex
  obtain ⟨before', gap, hbefore', hgap, hid'⟩ := trim_split id
  rw [hid] at hid'
  have hform : cs = before ++ before' ++ (e.1.toList ++ gap ++
      ':' :: (gap' ++ (zeroX n ++ digits ++ (after' ++ after)))) := by
    rw [hcs, hentry, hid']
    simp
  rw [hform]
  exact .entry (List.forall_mem_append.mpr ⟨hbefore, hbefore'⟩) hvalid hgap hgap' hdigits
    (List.forall_mem_append.mpr ⟨hafter', hafter⟩)

theorem item_none_iff {cs : List Char} : Item cs none ↔ trim (String.ofList cs) = "" := by
  rw [trim_blank_iff]
  constructor
  · rintro ⟨h⟩
    exact h
  · exact .blank

/-- There is no comma in an item. -/
theorem Item.no_comma {cs : List Char} {o : Option (String × MasterKey)} (h : Item cs o) :
    ',' ∉ cs := by
  intro hc
  cases h with
  | blank h => exact (blank_plain h hc).1 rfl
  | entry hbefore hvalid hgap hgap' hdigits hafter =>
      obtain ⟨-, hchars⟩ := validKeyId_iff.mp hvalid
      rcases List.mem_append.mp hc with hc | hc
      · exact (blank_plain hbefore hc).1 rfl
      rcases List.mem_append.mp hc with hc | hc
      · exact (List.mem_append.mp hc).elim (fun hc => (keyChar_plain (hchars _ hc)).1 rfl)
          fun hc => (blank_plain hgap hc).1 rfl
      rcases List.mem_cons.mp hc with hc | hc
      · exact absurd hc (by decide)
      rcases List.mem_append.mp hc with hc | hc
      · exact (blank_plain hgap' hc).1 rfl
      rcases List.mem_append.mp hc with hc | hc
      · rcases List.mem_append.mp hc with hc | hc
        · obtain ⟨l, hl, hc⟩ := List.mem_flatten.mp hc
          rw [List.eq_of_mem_replicate hl] at hc
          exact absurd hc (by decide)
        · exact (digit_plain hdigits hc).1 rfl
      · exact (blank_plain hafter hc).1 rfl

theorem no_comma_of_items {parts : List (List Char)} {items : List (Option (String × MasterKey))}
    (h : List.Forall₂ Item parts items) : ∀ part ∈ parts, ',' ∉ part := by
  induction h with
  | nil => nofun
  | cons hitem _ ih => exact List.forall_mem_cons.mpr ⟨hitem.no_comma, ih⟩

/-! ## Specs -/

/-- The parts between the commas are read one by one. -/
theorem parts_iff {parts : List (List Char)} {entries : List (String × MasterKey)} :
    (∃ items, List.Forall₂ Item parts items ∧ items.reduceOption = entries) ↔
      ((parts.map fun part => trim (String.ofList part)).filter (· ≠ "")).mapM parseEntry =
          .ok entries ∧
        ∀ e ∈ entries, validKeyId e.1 = true := by
  induction parts generalizing entries with
  | nil =>
      constructor
      · rintro ⟨_, ⟨⟩, rfl⟩
        exact ⟨rfl, nofun⟩
      · rintro ⟨h, -⟩
        cases h
        exact ⟨[], .nil, rfl⟩
  | cons part parts ih =>
      rw [List.map_cons]
      by_cases hblank : trim (String.ofList part) = ""
      · rw [List.filter_cons_of_neg (by simpa using hblank), ← ih]
        constructor
        · rintro ⟨_, hitems, rfl⟩
          cases hitems with
          | @cons _ o _ items hitem hitems =>
            cases o with
            | none => exact ⟨items, hitems, rfl⟩
            | some e => exact absurd hblank hitem.reads.1
        · rintro ⟨items, hitems, rfl⟩
          exact ⟨none :: items, .cons (item_none_iff.mpr hblank) hitems, rfl⟩
      · rw [List.filter_cons_of_pos (by simpa using hblank), List.mapM_cons]
        constructor
        · rintro ⟨_, hitems, rfl⟩
          cases hitems with
          | @cons _ o _ items hitem hitems =>
            cases o with
            | none => exact absurd (item_none_iff.mp hitem) hblank
            | some e =>
                obtain ⟨-, hparse, hvalid⟩ := hitem.reads
                obtain ⟨hrest, hvalids⟩ := ih.mp ⟨items, hitems, rfl⟩
                rw [Result.ok_bind hparse, Result.ok_bind hrest]
                exact ⟨rfl, List.forall_mem_cons.mpr ⟨hvalid, hvalids⟩⟩
        · rintro ⟨h, hvalid⟩
          obtain ⟨e, hparse, h⟩ := Result.bind_ok h
          obtain ⟨rest, hrest, h⟩ := Result.bind_ok h
          cases h
          obtain ⟨hhead, hvalids⟩ := List.forall_mem_cons.mp hvalid
          obtain ⟨items, hitems, rfl⟩ := ih.mpr ⟨hrest, hvalids⟩
          exact ⟨some e :: items, .cons (.of_reads hparse hhead) hitems, rfl⟩

/-- The parser reads the entries that a spec lists, and no spec lists others. -/
theorem lists_iff {spec : String} {entries : List (String × MasterKey)} : Lists spec entries ↔
    specEntries spec = .ok entries ∧ ∀ e ∈ entries, validKeyId e.1 = true := by
  rw [specEntries, specParts, ← parts_iff]
  constructor
  · rintro ⟨parts, items, htext, hitems, rfl⟩
    by_cases hnil : parts = []
    · subst hnil
      cases hitems
      rw [htext]
      exact ⟨[none], .cons (.blank nofun) .nil, rfl⟩
    · rw [htext, List.splitOn_intercalate ',' (no_comma_of_items hitems) hnil]
      exact ⟨items, hitems, rfl⟩
  · rintro ⟨items, hitems, rfl⟩
    exact ⟨_, items, (List.intercalate_splitOn ',').symm, hitems, rfl⟩

/-- One entry as a spec lists it. -/
def renderEntry (e : String × MasterKey) : List Char := e.1.toList ++ ':' :: Hex.encode e.2.bytes

/-- The spec of a list of entries. -/
def renderSpec (entries : List (String × MasterKey)) : String :=
  String.ofList ([','].intercalate (entries.map renderEntry))

/-- A spec lists the entries it was written from. -/
theorem lists_render {entries : List (String × MasterKey)}
    (h : ∀ e ∈ entries, validKeyId e.1 = true) : Lists (renderSpec entries) entries := by
  have hentries : (entries.map some).reduceOption = entries := by
    rw [List.reduceOption, List.filterMap_map]
    exact List.filterMap_some
  refine ⟨entries.map renderEntry, entries.map some, String.toList_ofList, ?_, hentries⟩
  rw [List.forall₂_map_left_iff, List.forall₂_map_right_iff, List.forall₂_same]
  intro e he
  have hform : renderEntry e =
      [] ++ (e.1.toList ++ [] ++ ':' :: ([] ++ (zeroX 0 ++ Hex.encode e.2.bytes ++ []))) := by
    simp [renderEntry, zeroX]
  rw [hform]
  exact .entry nofun (h e he) nofun nofun (Hex.decode_encode _) nofun

/-- A keyring is parsed from a spec as it is made from the entries that the spec lists. -/
theorem Keyring.parse_lists [StdTexts] {spec active : String} {entries : List (String × MasterKey)}
    (h : Lists spec entries) : Keyring.parse spec active = Keyring.new active entries :=
  Result.ok_bind (lists_iff.mp h).1

end Buyback
