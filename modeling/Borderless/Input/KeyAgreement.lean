import Borderless.Input.X11

/-!
# Capture and emission over one keyboard mapping

A hub and a spoke with the same keyboard mapping: the capture goes from a keycode to the keysym in
its first column and to a usage, and the emitter goes from the usage to a keysym and to a keycode.
The table of the emitter lets the first row win in which a keysym occurs at all, in any column.
`lookup_buildKeysymTable` says which keycode this is, and `key_agrees_iff` when its first column
leads back to the usage.
-/

namespace Borderless.Input

open LastWrite

/-! ## Keysyms of one usage -/

/-- The keysym that the emitter looks for where the capture has found `sym`: for a letter the
lowercase one. -/
def Keysym.lowercase (sym : Keysym) : Keysym :=
  if 0x0041 ≤ sym ∧ sym ≤ 0x005a then sym + 0x20 else sym

/-- Above ASCII the capture goes by its table. -/
theorem keysymToHid_of_ge {sym : Keysym} (h : 128 ≤ sym.toNat) :
    keysymToHid sym = usageOfKeysym.lookup sym := by
  have hletter : ∀ b : Keysym, b.toNat < 128 → ¬ sym ≤ b := fun b hb hle => by
    have hle' := UInt32.le_iff_toNat_le.1 hle
    omega
  have hzero : sym ≠ 0x0030 := by
    rintro rfl
    exact absurd h (by decide)
  unfold keysymToHid
  rw [if_neg fun hand => hletter 0x007a (by decide) hand.2,
    if_neg fun hand => hletter 0x005a (by decide) hand.2, if_neg hzero,
    if_neg fun hand => hletter 0x0039 (by decide) hand.2]

/-- Beyond ASCII there are no capital letters. -/
theorem lowercase_of_ge {sym : Keysym} (h : 128 ≤ sym.toNat) : sym.lowercase = sym := by
  unfold Keysym.lowercase
  rw [if_neg]
  rintro ⟨-, hle⟩
  have hle' := UInt32.le_iff_toNat_le.1 hle
  have h5a : (0x005a : Keysym).toNat = 90 := by decide
  omega

/-- The emitter looks for the lowercase form of the keysym that the capture has found. -/
theorem hidToKeysym_of_keysymToHid {sym : Keysym} {h : HidUsage} (hsym : keysymToHid sym = some h) :
    hidToKeysym h = some sym.lowercase := by
  by_cases hascii : sym.toNat < 128
  · have hall : ∀ m < 128, ∀ h ∈ keysymToHid (.ofNat m),
        hidToKeysym h = some (Keysym.lowercase (.ofNat m)) := by decide +kernel
    have hspec := hall sym.toNat hascii h
    rw [UInt32.ofNat_toNat] at hspec
    exact hspec hsym
  · have hge : 128 ≤ sym.toNat := not_lt.1 hascii
    have hall : ∀ p ∈ usageOfKeysym, hidToKeysym p.2 = some p.1 := by decide +kernel
    rw [keysymToHid_of_ge hge] at hsym
    rw [lowercase_of_ge hge]
    exact hall (sym, h) (mem_of_lookup_eq_some hsym)

/-- A keysym and its lowercase form are of the same usage. -/
theorem keysymToHid_lowercase (sym : Keysym) : keysymToHid sym.lowercase = keysymToHid sym := by
  by_cases hascii : sym.toNat < 128
  · have hall : ∀ m < 128, keysymToHid (Keysym.lowercase (.ofNat m)) = keysymToHid (.ofNat m) := by
      decide +kernel
    have hspec := hall sym.toNat hascii
    rwa [UInt32.ofNat_toNat] at hspec
  · rw [lowercase_of_ge (not_lt.1 hascii)]

/-- Two keysyms are of the same usage when their lowercase forms are the same. -/
theorem keysymToHid_eq_iff {sym sym' : Keysym} {h : HidUsage} (hsym : keysymToHid sym = some h) :
    keysymToHid sym' = some h ↔ sym'.lowercase = sym.lowercase := by
  constructor
  · intro hsym'
    exact Option.some.inj ((hidToKeysym_of_keysymToHid hsym').symm.trans
      (hidToKeysym_of_keysymToHid hsym))
  · intro hlower
    rw [← keysymToHid_lowercase, hlower, keysymToHid_lowercase, hsym]

/-- No usage has the keysym 0. -/
theorem lowercase_ne_zero {sym : Keysym} {h : HidUsage} (hsym : keysymToHid sym = some h) :
    sym.lowercase ≠ 0 := by
  intro hzero
  have hnone : keysymToHid 0 = none := by decide
  rw [← keysymToHid_lowercase, hzero, hnone] at hsym
  cases hsym

/-! ## The table of the emitter -/

/-- The number of keycodes. -/
def KeyMap.count (map : KeyMap) : ℕ := (map.maxKeycode - map.minKeycode + 1).toNat

/-- The keysym is in the row of a keycode, in some column. -/
def KeyMap.InRow (map : KeyMap) (sym : Keysym) (row : ℕ) : Prop :=
  ∃ col < map.keysymsPerKeycode.toNat, map.keysym row col = some sym

/-- The first row in which the keysym is. -/
def KeyMap.FirstRow (map : KeyMap) (sym : Keysym) (row : ℕ) : Prop :=
  row < map.count ∧ map.InRow sym row ∧ ∀ row' < row, ¬ map.InRow sym row'

/-- The keycode of a row. -/
def KeyMap.keycode (map : KeyMap) (row : ℕ) : UInt8 := map.minKeycode + UInt8.ofNat row

/-- The entries of the table for a row. -/
def KeyMap.rowEntries (map : KeyMap) (row : ℕ) : List (Keysym × UInt8) :=
  (List.range map.keysymsPerKeycode.toNat).filterMap fun col =>
    match map.keysym row col with
    | none => none
    | some sym => if sym = 0 then none else some (sym, map.keycode row)

section Table

variable {map : KeyMap} {sym : Keysym} {row : ℕ}

/-- Where the first entry of a key wins, the table is the list of the entries. -/
theorem lookup_firstWins (entries : List (Keysym × UInt8)) (out : Finmap fun _ : Keysym => UInt8) :
    (entries.foldl (fun out p => if p.1 ∈ out then out else out.insert p.1 p.2) out).lookup sym =
      (out.lookup sym).or (entries.lookup sym) := by
  induction entries generalizing out with
  | nil => simp
  | cons p entries ih =>
    obtain ⟨k, kc⟩ := p
    rw [List.foldl_cons, ih]
    by_cases hk : sym = k
    · subst hk
      split_ifs with hmem
      · obtain ⟨kc', hkc'⟩ := Finmap.mem_iff.1 hmem
        simp [hkc']
      · rw [Finmap.lookup_insert, Finmap.lookup_eq_none.2 hmem]
        simp
    · have hne : (sym == k) = false := by simpa using hk
      rw [List.lookup_cons, hne]
      split_ifs with hmem
      · rfl
      · rw [Finmap.lookup_insert_of_ne _ hk]

/-- The entries of a row are its keysyms, except 0, with its keycode. -/
theorem mem_rowEntries {p : Keysym × UInt8} :
    p ∈ map.rowEntries row ↔ p.1 ≠ 0 ∧ map.InRow p.1 row ∧ p.2 = map.keycode row := by
  unfold KeyMap.rowEntries KeyMap.InRow
  rw [List.mem_filterMap]
  constructor
  · rintro ⟨col, hcol, hp⟩
    cases hkeysym : map.keysym row col with
    | none => simp [hkeysym] at hp
    | some k =>
      by_cases hk : k = 0
      · simp [hkeysym, hk] at hp
      · simp only [hkeysym, if_neg hk, Option.some.injEq] at hp
        subst hp
        exact ⟨hk, ⟨col, List.mem_range.1 hcol, hkeysym⟩, rfl⟩
  · rintro ⟨hne, ⟨col, hcol, hkeysym⟩, hkc⟩
    refine ⟨col, List.mem_range.2 hcol, ?_⟩
    simp only [hkeysym, if_neg hne, ← hkc]

/-- What a row has for a keysym. -/
theorem lookup_rowEntries (hsym : sym ≠ 0) {kc : UInt8} :
    (map.rowEntries row).lookup sym = some kc ↔ map.InRow sym row ∧ kc = map.keycode row := by
  constructor
  · intro h
    exact (mem_rowEntries.1 (mem_of_lookup_eq_some h)).2
  · rintro ⟨hrow, rfl⟩
    have hmem : (sym, map.keycode row) ∈ map.rowEntries row := mem_rowEntries.2 ⟨hsym, hrow, rfl⟩
    cases hlookup : (map.rowEntries row).lookup sym with
    | none => simpa using List.lookup_eq_none_iff.1 hlookup _ hmem
    | some kc =>
      -- every entry of the row has its keycode
      exact congrArg some (mem_rowEntries.1 (mem_of_lookup_eq_some hlookup)).2.2

/-- Among the first `n` rows the first one with the keysym wins. -/
theorem lookup_rows (hsym : sym ≠ 0) (n : ℕ) {kc : UInt8} :
    ((List.range n).flatMap map.rowEntries).lookup sym = some kc ↔
      ∃ row < n, map.InRow sym row ∧ (∀ row' < row, ¬ map.InRow sym row') ∧
        kc = map.keycode row := by
  -- the last row counts only where the rows before it have nothing for the keysym
  induction n generalizing kc with
  | zero => simp
  | succ n ih =>
    rw [List.range_succ, List.flatMap_append, List.flatMap_singleton, List.lookup_append,
      Option.or_eq_some_iff, lookup_rowEntries hsym]
    constructor
    · rintro (hfirst | ⟨hnone, hrow, rfl⟩)
      · obtain ⟨row, hlt, hrest⟩ := ih.1 hfirst
        exact ⟨row, by omega, hrest⟩
      · refine ⟨n, by omega, hrow, fun row' hlt hrow' => ?_, rfl⟩
        -- an earlier row with the keysym would have an entry
        have hmem : (sym, map.keycode row') ∈ (List.range n).flatMap map.rowEntries :=
          List.mem_flatMap.2 ⟨row', List.mem_range.2 hlt, mem_rowEntries.2 ⟨hsym, hrow', rfl⟩⟩
        simpa using List.lookup_eq_none_iff.1 hnone _ hmem
    · rintro ⟨row, hlt, hrow, hbefore, rfl⟩
      by_cases hlast : row = n
      · subst hlast
        refine .inr ⟨?_, hrow, rfl⟩
        cases hfirst : ((List.range row).flatMap map.rowEntries).lookup sym with
        | none => rfl
        | some kc =>
          obtain ⟨row', hlt', hrow', -⟩ := ih.1 hfirst
          exact absurd hrow' (hbefore row' hlt')
      · exact .inl (ih.2 ⟨row, by omega, hrow, hbefore, rfl⟩)

/-- The emitter has the keycode of the first row with the keysym. -/
theorem lookup_buildKeysymTable (hsym : sym ≠ 0) {kc : UInt8} :
    (buildKeysymTable map).lookup sym = some kc ↔
      ∃ row, map.FirstRow sym row ∧ kc = map.keycode row := by
  have hentries : keysymEntries map = (List.range map.count).flatMap map.rowEntries := rfl
  unfold buildKeysymTable
  rw [lookup_firstWins, Finmap.lookup_empty, Option.none_or, hentries, lookup_rows hsym]
  constructor
  · rintro ⟨row, hlt, hrow, hbefore, hkc⟩
    exact ⟨row, ⟨hlt, hrow, hbefore⟩, hkc⟩
  · rintro ⟨row, ⟨hlt, hrow, hbefore⟩, hkc⟩
    exact ⟨row, hlt, hrow, hbefore, hkc⟩

end Table

/-! ## Agreement -/

/-- A keyboard mapping as an X server has it: keycodes start at 8 or above. -/
def KeyMap.Valid (map : KeyMap) : Prop := 8 ≤ map.minKeycode ∧ map.minKeycode ≤ map.maxKeycode

instance : DecidablePred KeyMap.Valid := fun _ => inferInstanceAs (Decidable (_ ∧ _))

/-- The keysym in the first, unshifted column of a keycode. -/
def KeyMap.unshifted (map : KeyMap) (kc : UInt8) : Option Keysym :=
  map.keysym (kc.toNat - map.minKeycode.toNat) 0

/-- The emitter has a keycode for the usage, and its unshifted keysym leads back to the usage. -/
def KeyMap.Agrees (map : KeyMap) (h : HidUsage) : Prop :=
  ∃ kc, (X11Emit.new map).hidToKeycode h = some kc ∧ (map.unshifted kc).bind keysymToHid = some h

/-- The mapping has the keysym of the usage, and the first row in which it is, in any column, starts
with it or with its uppercase form. -/
def KeyMap.FirstIsUnshifted (map : KeyMap) (h : HidUsage) : Prop :=
  ∃ sym row base, hidToKeysym h = some sym ∧ map.FirstRow sym row ∧
    map.keysym row 0 = some base ∧ base.lowercase = sym

section Agreement

variable {map : KeyMap}

/-- The keycodes of the rows do not wrap. -/
theorem toNat_keycode (hvalid : map.Valid) {row : ℕ} (hrow : row < map.count) :
    (map.keycode row).toNat = map.minKeycode.toNat + row := by
  have hle := UInt8.le_iff_toNat_le.1 hvalid.2
  have hmin := UInt8.le_iff_toNat_le.1 hvalid.1
  have hmax := map.maxKeycode.toNat_lt
  have hone : (1 : UInt8).toNat = 1 := by decide
  have height : (8 : UInt8).toNat = 8 := by decide
  unfold KeyMap.count at hrow
  rw [UInt8.toNat_add, UInt8.toNat_sub_of_le _ _ hvalid.2, hone] at hrow
  unfold KeyMap.keycode
  rw [UInt8.toNat_add, UInt8.toNat_ofNat']
  omega

/-- Agreement over one keyboard mapping. Where the capture turns a keycode into a usage, the
emitter's keycode for the usage leads back to it if and only if the first row of the mapping with
the keysym of the usage starts with this keysym or with its uppercase form. -/
theorem key_agrees_iff (map : KeyMap) (hvalid : map.Valid) (keycode : UInt32) (h : HidUsage)
    (hcapture : map.usage keycode = some h) : map.Agrees h ↔ map.FirstIsUnshifted h := by
  -- the keysym that the capture has found, of which the emitter looks for the lowercase form
  obtain ⟨sym, hsym⟩ : ∃ sym, keysymToHid sym = some h := by
    unfold KeyMap.usage at hcapture
    dsimp only at hcapture
    split_ifs at hcapture
    obtain ⟨sym, -, hsym⟩ := Option.bind_eq_some_iff.1 hcapture
    exact ⟨sym, hsym⟩
  have hlower := hidToKeysym_of_keysymToHid hsym
  have hne := lowercase_ne_zero hsym
  have hunshifted : ∀ row, map.FirstRow sym.lowercase row →
      map.unshifted (map.keycode row) = map.keysym row 0 := by
    intro row hrow
    unfold KeyMap.unshifted
    rw [toNat_keycode hvalid hrow.1, Nat.add_sub_cancel_left]
  constructor
  · rintro ⟨kc, hkc, hback⟩
    unfold X11Emit.hidToKeycode at hkc
    rw [hlower, Option.bind_some] at hkc
    obtain ⟨row, hrow, rfl⟩ := (lookup_buildKeysymTable hne).1 hkc
    rw [hunshifted row hrow] at hback
    obtain ⟨base, hbase, hhid⟩ := Option.bind_eq_some_iff.1 hback
    exact ⟨_, row, base, hlower, hrow, hbase, (keysymToHid_eq_iff hsym).1 hhid⟩
  · rintro ⟨sym', row, base, hsym', hrow, hbase, hsame⟩
    obtain rfl := Option.some.inj (hlower.symm.trans hsym')
    refine ⟨map.keycode row, ?_, ?_⟩
    · unfold X11Emit.hidToKeycode
      rw [hlower, Option.bind_some]
      exact (lookup_buildKeysymTable hne).2 ⟨row, hrow, rfl⟩
    · rw [hunshifted row hrow, hbase, Option.bind_some]
      exact (keysymToHid_eq_iff hsym).2 hsame

end Agreement

section Example

/-- A keyboard mapping with two columns: 1 and the exclamation mark, and then A. -/
def oneAndA : KeyMap := ⟨8, 9, 2, [0x0031, 0x0021, 0x0061, 0x0041]⟩

/-- On it the key A agrees. -/
theorem oneAndA_agrees : oneAndA.Agrees .keyA ↔ oneAndA.FirstIsUnshifted .keyA :=
  key_agrees_iff oneAndA (by decide) 9 .keyA (by decide)

/-- A keyboard mapping with two columns, where the digit is shifted on the first key and unshifted
on the second. -/
def shiftedFirst : KeyMap := ⟨8, 9, 2, [0x0026, 0x0031, 0x0031, 0x0021]⟩

/-- The digit that is captured from the second key is emitted by the first one, which is another key
without Shift. -/
theorem shiftedFirst_disagrees :
    ¬ ∀ map : KeyMap, map.Valid → ∀ keycode h, map.usage keycode = some h → map.Agrees h := by
  intro hall
  have hone : shiftedFirst.usage 9 = some ⟨0x1E⟩ := by decide
  obtain ⟨kc, hkc, hback⟩ := hall shiftedFirst (by decide) 9 ⟨0x1E⟩ hone
  have hfirst : (X11Emit.new shiftedFirst).hidToKeycode ⟨0x1E⟩ = some 8 := by decide
  obtain rfl := Option.some.inj (hkc.symm.trans hfirst)
  exact absurd hback (by decide)

end Example

end Borderless.Input
