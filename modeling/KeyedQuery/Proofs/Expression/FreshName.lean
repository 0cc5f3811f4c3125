import KeyedQuery.Expression.Fragment
import KeyedQuery.Proofs.Dict

/-!
# Fresh aliases and placeholders

Aliases and placeholders are marked words: a mark and at least one word
character.  A search for a free number ends with a free one, because it tries
more numbers than there are names taken.  So an assignment never replaces an
entry of the tables, and what an operand stood for it stands for later on.
-/

namespace KeyedQuery

/-! ## Marked words -/

/-- A mark with one or more word characters behind it. -/
def MarkedWord (mark : Char) (text : String) : Prop :=
  ∃ word : List Char,
    word ≠ [] ∧ (∀ c ∈ word, isWordChar c = true) ∧ text = String.ofList (mark :: word)

theorem isLower_iff {c : Char} : c.isLower = true ↔ 97 ≤ c.toNat ∧ c.toNat ≤ 122 := by
  show (decide (c.val ≥ 'a'.val) && decide (c.val ≤ 'z'.val)) = true ↔ _
  rw [Bool.and_eq_true, decide_eq_true_eq, decide_eq_true_eq, ge_iff_le,
    UInt32.le_iff_toNat_le, UInt32.le_iff_toNat_le]
  rfl

theorem isUpper_iff {c : Char} : c.isUpper = true ↔ 65 ≤ c.toNat ∧ c.toNat ≤ 90 := by
  show decide (c.val ≥ 'A'.val ∧ c.val ≤ 'Z'.val) = true ↔ _
  rw [decide_eq_true_eq, ge_iff_le, UInt32.le_iff_toNat_le, UInt32.le_iff_toNat_le]
  rfl

/-- The word characters are the letters and digits of ASCII and the underscore. -/
theorem isWordChar_iff {c : Char} :
    isWordChar c = true ↔
      c.isUpper = true ∨ c.isLower = true ∨ c.isDigit = true ∨ c = '_' := by
  show ((c.isUpper || c.isLower) || c.isDigit || c == '_') = true ↔ _
  simp only [Bool.or_eq_true, beq_iff_eq, or_assoc]

theorem isWordChar_underscore : isWordChar '_' = true := by
  decide

theorem isWordChar_of_isDigit {c : Char} (h : c.isDigit = true) : isWordChar c = true :=
  isWordChar_iff.mpr (.inr (.inr (.inl h)))

theorem isUpper_toUpper {c : Char} (h : c.isLower = true) : c.toUpper.isUpper = true := by
  obtain ⟨hle, hge⟩ := isLower_iff.mp h
  have hlower : c.val ≥ 'a'.val ∧ c.val ≤ 'z'.val := by
    rw [ge_iff_le, UInt32.le_iff_toNat_le, UInt32.le_iff_toNat_le]
    exact ⟨hle, hge⟩
  have hupper : c.toUpper.toNat = (c.val + ('A'.val - 'a'.val)).toNat := by
    unfold Char.toUpper
    rw [dif_pos hlower]
    rfl
  have hval : c.val.toNat = c.toNat := rfl
  have hshift : ('A'.val - 'a'.val).toNat = 2 ^ 32 - 32 := rfl
  rw [isUpper_iff, hupper, UInt32.toNat_add]
  omega

theorem toUpper_of_not_isLower {c : Char} (h : ¬ c.isLower = true) : c.toUpper = c := by
  have hnot : ¬(c.val ≥ 'a'.val ∧ c.val ≤ 'z'.val) := by
    intro hrange
    rw [ge_iff_le, UInt32.le_iff_toNat_le, UInt32.le_iff_toNat_le] at hrange
    exact h (isLower_iff.mpr hrange)
  unfold Char.toUpper
  rw [dif_neg hnot]

/-- The letter case of a character does not matter for whether words may hold it. -/
@[simp] theorem isWordChar_toUpper (c : Char) : isWordChar c.toUpper = isWordChar c := by
  by_cases hlower : c.isLower = true
  · have hupper := isWordChar_iff.mpr (.inl (isUpper_toUpper hlower))
    have hword := isWordChar_iff.mpr (.inr (.inl hlower))
    rw [hupper, hword]
  · rw [toUpper_of_not_isLower hlower]

theorem wordOfName_ne_nil (name : String) : wordOfName name ≠ [] := by
  unfold wordOfName
  split
  · simp
  · rename_i hne
    simpa using hne

theorem isWordChar_of_mem_wordOfName {name : String} {c : Char} (h : c ∈ wordOfName name) :
    isWordChar c = true := by
  unfold wordOfName at h
  split at h
  · rw [List.mem_singleton.mp h]
    exact isWordChar_underscore
  · obtain ⟨d, _, rfl⟩ := List.mem_map.mp h
    by_cases hd : isWordChar d = true
    · rw [if_pos hd]
      exact hd
    · rw [if_neg hd]
      exact isWordChar_underscore

theorem MarkedWord.of_beginning {mark : Char} {word : List Char} {n : Nat}
    (hne : word ≠ []) (hword : ∀ c ∈ word, isWordChar c = true) :
    MarkedWord mark (String.ofList (mark :: word.take (n + 1))) := by
  refine ⟨word.take (n + 1), ?_, ?_, rfl⟩
  · cases word with
    | nil => exact absurd rfl hne
    | cons c rest => simp
  · intro c hc
    exact hword c (List.mem_of_mem_take hc)

theorem MarkedWord.of_word {mark : Char} {word : List Char}
    (hne : word ≠ []) (hword : ∀ c ∈ word, isWordChar c = true) :
    MarkedWord mark (String.ofList (mark :: word)) :=
  ⟨word, hne, hword, rfl⟩

/-! ## Numbers behind a stem -/

theorem digits_injective {m n : Nat} (h : Decimal.digits m = Decimal.digits n) : m = n := by
  have hvalue := congrArg (fun cs => Nat.ofDigitChars 10 cs 0) h
  simpa [Decimal.digits, Nat.ofDigitChars_ten_toDigits] using hvalue

theorem toList_numbered (stem : String) (n : Nat) :
    (numbered stem n).toList = stem.toList ++ '_' :: Decimal.digits n := by
  have hnonneg : ¬ ((n : Int) < 0) := by omega
  simp [numbered, Decimal.intText, Decimal.intDigits, hnonneg]

theorem numbered_injective {stem : String} {m n : Nat}
    (h : numbered stem m = numbered stem n) : m = n := by
  have hlist := congrArg String.toList h
  rw [toList_numbered, toList_numbered] at hlist
  have htail := List.append_cancel_left hlist
  exact digits_injective (List.cons.inj htail).2

theorem MarkedWord.numbered {mark : Char} {stem : String} (h : MarkedWord mark stem) (n : Nat) :
    MarkedWord mark (numbered stem n) := by
  obtain ⟨word, hne, hword, rfl⟩ := h
  refine ⟨word ++ '_' :: Decimal.digits n, by simp, ?_, ?_⟩
  · intro c hc
    rcases List.mem_append.mp hc with hc | hc
    · exact hword c hc
    · rcases List.mem_cons.mp hc with rfl | hc
      · exact isWordChar_underscore
      · exact isWordChar_of_isDigit
          (Nat.isDigit_of_mem_toDigits (by omega) (by omega) hc)
  · apply String.toList_inj.mp
    rw [toList_numbered]
    simp

/-- A search passes over taken numbers only, and ends with a taken one only when it runs out. -/
theorem exists_firstNumbered_eq (taken : String → Bool) (stem : String) (steps n : Nat) :
    ∃ k ≤ steps, firstNumbered taken stem steps n = numbered stem (n + k) ∧
      (∀ j < k, taken (numbered stem (n + j)) = true) ∧
      (taken (numbered stem (n + k)) = true → k = steps) := by
  induction steps generalizing n with
  | zero => exact ⟨0, Nat.le_refl 0, rfl, by simp, fun _ => rfl⟩
  | succ steps ih =>
      unfold firstNumbered
      split
      · rename_i htaken
        obtain ⟨k, hle, heq, hpassed, hlast⟩ := ih (n + 1)
        have hnext : ∀ j, n + 1 + j = n + (j + 1) := by omega
        simp only [hnext] at heq hpassed hlast
        refine ⟨k + 1, by omega, heq, fun j hj => ?_, fun h => by rw [hlast h]⟩
        cases j with
        | zero => exact htaken
        | succ j => exact hpassed j (by omega)
      · rename_i hfree
        exact ⟨0, Nat.zero_le _, rfl, by simp, fun h => absurd h hfree⟩

/-- A search that ends with a taken name has found every name on its way taken. -/
theorem taken_of_taken_firstNumbered {taken : String → Bool} {stem : String} {steps n : Nat}
    (h : taken (firstNumbered taken stem steps n) = true) :
    ∀ i, i ≤ steps → taken (numbered stem (n + i)) = true := by
  obtain ⟨k, _, heq, hpassed, hlast⟩ := exists_firstNumbered_eq taken stem steps n
  rw [heq] at h
  intro i hi
  rcases Nat.lt_or_eq_of_le (hlast h ▸ hi) with hlt | rfl
  · exact hpassed i hlt
  · exact h

/-- More numbers are tried than names are taken, so the search ends with a free name. -/
theorem firstNumbered_fresh {α : Type} (d : Dict α) (stem : String) (n : Nat) :
    d.contains (firstNumbered d.contains stem d.size n) = false := by
  apply Bool.eq_false_iff.mpr
  intro htaken
  let tried := (List.range (d.size + 1)).map fun i => numbered stem (n + i)
  have hnodup : tried.Nodup := by
    refine List.pairwise_map.mpr (List.nodup_range.imp ?_)
    intro i j hij heq
    have := numbered_injective heq
    omega
  have hsubset : tried ⊆ d.names := by
    intro name hname
    obtain ⟨i, hi, rfl⟩ := List.mem_map.mp hname
    have hle : i ≤ d.size := by
      have := List.mem_range.mp hi
      omega
    exact Dict.contains_iff_mem_names.mp (taken_of_taken_firstNumbered htaken i hle)
  have hlength := hnodup.length_le_of_subset hsubset
  rw [Dict.length_names, List.length_map, List.length_range] at hlength
  omega

/-! ## Tables that grow -/

namespace Bindings

instance : HasSubset Bindings :=
  ⟨fun a b => a.names ⊆ b.names ∧ a.values ⊆ b.values⟩

theorem subset_refl (b : Bindings) : b ⊆ b :=
  ⟨b.names.subset_refl, b.values.subset_refl⟩

theorem subset_trans {a b c : Bindings} (hab : a ⊆ b) (hbc : b ⊆ c) : a ⊆ c :=
  ⟨Dict.subset_trans hab.1 hbc.1, Dict.subset_trans hab.2 hbc.2⟩

/-- Every alias of the tables is a marked word. -/
def AliasesMarked (b : Bindings) : Prop :=
  ∀ path name, b.names.get? path = some name → MarkedWord '#' path

theorem aliasesMarked_empty : Bindings.empty.AliasesMarked := by
  intro path name h
  cases h

theorem AliasesMarked.of_names_eq {b b' : Bindings} (h : b.AliasesMarked)
    (hnames : b'.names = b.names) : b'.AliasesMarked := by
  unfold AliasesMarked
  rw [hnames]
  exact h

theorem get?_of_aliasOf? {b : Bindings} {name aliasName : String}
    (h : b.aliasOf? name = some aliasName) : b.names.get? aliasName = some name := by
  unfold aliasOf? at h
  obtain ⟨⟨path, held⟩, hfind, hpath⟩ := Option.map_eq_some_iff.mp h
  have hheld : held = name := by
    simpa using List.find?_some hfind
  have hmem : (aliasName, name) ∈ b.names.entries := by
    have := List.mem_of_find?_eq_some hfind
    simpa [← hpath, ← hheld] using this
  exact Dict.get?_of_mem hmem

/-- An attribute without an alias is in the table under no alias. -/
theorem get?_ne_of_aliasOf?_eq_none {b : Bindings} {name : String}
    (h : b.aliasOf? name = none) (path : String) : b.names.get? path ≠ some name := by
  intro hget
  have hmem := Dict.mem_of_get? hget
  simp only [aliasOf?, Option.map_eq_none_iff, List.find?_eq_none] at h
  simpa using h _ hmem

/-- A new alias is not in use, and it is a marked word. -/
theorem newAlias_spec (b : Bindings) (name : String) :
    b.names.contains (b.newAlias name) = false ∧ MarkedWord '#' (b.newAlias name) := by
  have hne : (wordOfName name).map Char.toUpper ≠ [] := by
    simpa using wordOfName_ne_nil name
  have hword : ∀ c ∈ (wordOfName name).map Char.toUpper, isWordChar c = true := by
    intro c hc
    obtain ⟨d, hd, rfl⟩ := List.mem_map.mp hc
    rw [isWordChar_toUpper]
    exact isWordChar_of_mem_wordOfName hd
  unfold newAlias
  dsimp only
  split
  · rename_i candidate hfind
    constructor
    · simpa using List.find?_some hfind
    · obtain ⟨n, _, rfl⟩ := List.mem_map.mp (List.mem_of_find?_eq_some hfind)
      exact MarkedWord.of_beginning hne hword
  · refine ⟨firstNumbered_fresh _ _ _, ?_⟩
    obtain ⟨k, _, heq, _, _⟩ := exists_firstNumbered_eq b.names.contains
      (String.ofList ('#' :: (wordOfName name).map Char.toUpper)) b.names.size 1
    rw [heq]
    exact (MarkedWord.of_word hne hword).numbered (1 + k)

/-- The alias of an attribute stands for it, and all that was assigned before stays assigned. -/
theorem aliasFor_spec {b b' : Bindings} {name aliasName : String}
    (hb : b.AliasesMarked) (h : b.aliasFor name = (aliasName, b')) :
    b ⊆ b' ∧ b'.AliasesMarked ∧ MarkedWord '#' aliasName ∧
      b'.names.get? aliasName = some name := by
  unfold aliasFor at h
  split at h
  · rename_i found hfound
    cases h
    have hget := get?_of_aliasOf? hfound
    exact ⟨b.subset_refl, hb, hb _ _ hget, hget⟩
  · cases h
    obtain ⟨hfresh, hmarked⟩ := b.newAlias_spec name
    refine ⟨⟨Dict.subset_insert name hfresh, b.values.subset_refl⟩, ?_, hmarked, ?_⟩
    · intro path held hget
      rw [Dict.get?_insert] at hget
      split at hget
      · rename_i heq
        rw [heq]
        exact hmarked
      · exact hb path held hget
    · exact Dict.get?_insert_self _ _ _

/-- A new placeholder is not in use, and it is a marked word. -/
theorem newPlaceholder_spec (b : Bindings) (base : String) :
    b.values.contains (b.newPlaceholder base) = false ∧
      MarkedWord ':' (b.newPlaceholder base) := by
  have hmarked : MarkedWord ':' (String.ofList (':' :: wordOfName base)) :=
    MarkedWord.of_word (wordOfName_ne_nil base) fun c hc => isWordChar_of_mem_wordOfName hc
  unfold newPlaceholder
  dsimp only
  split
  · refine ⟨firstNumbered_fresh _ _ _, ?_⟩
    obtain ⟨k, _, heq, _, _⟩ := exists_firstNumbered_eq b.values.contains
      (String.ofList (':' :: wordOfName base)) b.values.size 1
    rw [heq]
    exact hmarked.numbered (1 + k)
  · rename_i hfree
    exact ⟨by simpa using hfree, hmarked⟩

/-- A placeholder stands for its value, and all that was assigned before stays assigned. -/
theorem bind_spec {b b' : Bindings} {base placeholder : String} {value : Value}
    (h : b.bind base value = (placeholder, b')) :
    b ⊆ b' ∧ b'.names = b.names ∧ MarkedWord ':' placeholder ∧
      b'.values.get? placeholder = some value := by
  cases h
  obtain ⟨hfresh, hmarked⟩ := b.newPlaceholder_spec base
  exact ⟨⟨b.names.subset_refl, Dict.subset_insert value hfresh⟩, rfl, hmarked,
    Dict.get?_insert_self _ _ _⟩

end Bindings

end KeyedQuery
