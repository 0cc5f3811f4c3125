import KeyedQuery.Explain
import KeyedQuery.Proofs.Except

/-!
# Orders that are shown and read again

An explanation shows an order as texts of a field and a direction.  A field that
was read is a word, so such a text has two words, and reading the texts gives the
order back.  A text with commas is read as the list of its pieces.
-/

namespace KeyedQuery

namespace Text

/-! ## Words -/

variable {separator : Char → Bool} {c : Char}

/-- A separator cuts a text in two. -/
theorem pieces_append_cons (hc : separator c = true) (before after : List Char) :
    pieces separator (before ++ c :: after) =
      pieces separator before ++ pieces separator after := by
  induction before with
  | nil => simp [pieces, hc]
  | cons d before ih =>
      obtain ⟨piece, others, hpieces⟩ :=
        List.exists_cons_of_ne_nil (pieces_ne_nil separator before)
      by_cases hd : separator d = true
      · simp [pieces, hd, ih]
      · simp [pieces, hd, ih, hpieces]

theorem pieces_eq_singleton {text : List Char} (h : ∀ c ∈ text, separator c = false) :
    pieces separator text = [text] := by
  induction text with
  | nil => rfl
  | cons c rest ih =>
      obtain ⟨hc, hrest⟩ := List.forall_mem_cons.mp h
      simp [pieces, hc, ih hrest]

theorem words_append_cons (hc : isBlank c = true) (before after : List Char) :
    words (before ++ c :: after) = words before ++ words after := by
  rw [words, pieces_append_cons hc, List.filter_append]
  rfl

theorem words_eq_singleton {word : List Char} (hne : word ≠ [])
    (h : ∀ c ∈ word, isBlank c = false) : words word = [word] := by
  rw [words, pieces_eq_singleton h]
  simpa using hne

end Text

namespace Direction

theorem words_label (d : Direction) : Text.words d.label.toList = [d.label.toList] := by
  have hne : d.label.toList ≠ [] := by
    cases d <;> decide
  have hblank : (d.label.toList.all fun c => !Text.isBlank c) = true := by
    cases d <;> decide
  refine Text.words_eq_singleton hne fun c hc => ?_
  simpa using List.all_eq_true.mp hblank c hc

theorem direction?_label (d : Direction) : OrderSpec.direction? d.label.toList = some d := by
  cases d <;> decide +kernel

end Direction

namespace OrderSpec

/-! ## Fields and texts -/

/-- A field that can be written: it is not empty and has no white space in it. -/
def FieldIsWord (spec : OrderSpec) : Prop :=
  spec.field ≠ "" ∧ ∀ c ∈ spec.field.toList, Text.isBlank c = false

theorem fieldIsWord_of_mem_words (text : List Char) {word : List Char} {d : Direction}
    (h : word ∈ Text.words text) : FieldIsWord ⟨String.ofList word, d⟩ := by
  constructor
  · simpa using Text.ne_nil_of_mem_words h
  · intro c hc
    rw [String.toList_ofList] at hc
    exact Text.not_isBlank_of_mem_words h hc

theorem fieldIsWord_of_read {text : String} {spec : OrderSpec} (h : read text = .ok spec) :
    spec.FieldIsWord := by
  unfold read at h
  split at h
  · cases h
  · rename_i field hwords
    cases h
    exact fieldIsWord_of_mem_words text.toList (by simp [hwords])
  · rename_i field word more hwords
    split at h
    · cases h
    · split at h
      · cases h
        exact fieldIsWord_of_mem_words text.toList (by simp [hwords])
      · cases h

/-- The text of a specification is read as the specification. -/
theorem read_text {spec : OrderSpec} (h : spec.FieldIsWord) : read spec.text = .ok spec := by
  obtain ⟨hne, hblank⟩ := h
  have hfield := Text.words_eq_singleton (by simpa using hne) hblank
  have hwords : Text.words spec.text.toList = [spec.field.toList, spec.direction.label.toList] := by
    have htext : spec.text.toList = spec.field.toList ++ ' ' :: spec.direction.label.toList := by
      simp [text]
    rw [htext, Text.words_append_cons (by decide), hfield, Direction.words_label]
    rfl
  unfold read
  rw [hwords]
  simp [Direction.direction?_label]

/-! ## Lists -/

theorem fieldIsWord_of_readEntry {j : Json} {spec : OrderSpec} (h : readEntry j = .ok spec) :
    spec.FieldIsWord := by
  cases j with
  | string text => exact fieldIsWord_of_read h
  | _ => cases h

theorem fieldIsWord_of_readList {j : Json} {specs : List OrderSpec}
    (h : readList j = .ok specs) : ∀ spec ∈ specs, spec.FieldIsWord := by
  intro spec hspec
  cases j with
  | null =>
      cases h
      cases hspec
  | string text =>
      obtain ⟨piece, _, hpiece⟩ := exists_of_mem_forall₂ (mapM_eq_ok_iff.mp h).flip hspec
      exact fieldIsWord_of_read hpiece
  | array items =>
      obtain ⟨item, _, hitem⟩ := exists_of_mem_forall₂ (mapM_eq_ok_iff.mp h).flip hspec
      exact fieldIsWord_of_readEntry hitem
  | _ => cases h

theorem readList_texts {specs : List OrderSpec} (h : ∀ spec ∈ specs, spec.FieldIsWord) :
    readList (.array (specs.map fun spec => .string spec.text)) = .ok specs := by
  refine mapM_eq_ok_iff.mpr ?_
  rw [List.forall₂_map_left_iff, List.forall₂_same]
  exact fun spec hspec => read_text (h spec hspec)

/-- A text with commas is read as the list of its pieces, whether it can be read or not. -/
theorem readList_commaPieces (text : String) :
    readList (.string text) = readList (.array ((commaPieces text).map .string)) := by
  show (commaPieces text).mapM read = ((commaPieces text).map Json.string).mapM readEntry
  rw [List.mapM_map]
  rfl

end OrderSpec

/-! ## Explanations -/

namespace Explanation

theorem lookup_field? {name other : String} (h : other ≠ name) (value : Option Json) :
    (field? name value).lookup other = none := by
  cases value <;> simp [field?, h]

/-- The document of an explanation has the order as a list of texts. -/
theorem field_order (e : Explanation) :
    e.toJson.field "order" = .array (e.order.map fun spec => .string spec.text) := by
  simp [toJson, Json.field, Json.field?, List.lookup_append, List.lookup_cons, lookup_field?]

end Explanation

theorem Registry.order_of_explain {r : Registry} {name : String} {q : Query} {e : Explanation}
    (h : r.explain name q = .ok e) (hne : q.order ≠ []) : e.order = q.order := by
  unfold explain at h
  obtain ⟨m, _, h⟩ := bind_eq_ok_iff.mp h
  obtain ⟨p, _, h⟩ := bind_eq_ok_iff.mp h
  cases h
  simp [KeySchema.effectiveOrder, hne]

namespace OrderSpec

/--
The fields of an order that was read are words.  The order that an explanation
shows of a query with such an order is read as the same order, and a text with
commas is read, or refused, as the list of its pieces is.
-/
theorem readList_explained :
    (∀ j specs, readList j = .ok specs → specs ≠ [] →
      (∀ spec ∈ specs, spec.field ≠ "" ∧ ∀ c ∈ spec.field.toList, Text.isBlank c = false) ∧
      readList (.array (specs.map fun spec => .string spec.text)) = .ok specs ∧
      ∀ (r : Registry) (name : String) (q : Query) (e : Explanation), q.order = specs →
        r.explain name q = .ok e →
          e.toJson.field "order" = .array (specs.map fun spec => .string spec.text)) ∧
    ∀ text, readList (.string text) = readList (.array ((commaPieces text).map .string)) := by
  refine ⟨fun j specs hread hne => ?_, readList_commaPieces⟩
  have hfields := fieldIsWord_of_readList hread
  refine ⟨hfields, readList_texts hfields, fun r name q e horder he => ?_⟩
  have hshown := Registry.order_of_explain he (by rwa [horder])
  rw [e.field_order, hshown, horder]

/-- A field with a comma and two that are named as the directions are. -/
def mixed : List OrderSpec :=
  [⟨"a,b", .desc⟩, ⟨"asc", .asc⟩, ⟨"desc", .asc⟩]

theorem readList_explained_mixed :
    let j := Json.array [.string "a,b \tDeSc", .string "\u3000asc\u00a0Asc", .string "desc"]
    let shown := Json.array [.string "a,b DESC", .string "asc ASC", .string "desc ASC"]
    let r : Registry := ⟨Dict.ofList [("T", ⟨"T", none, KeySchema.ofHashKey "id" .string⟩)]⟩
    readList j = .ok mixed ∧ mixed ≠ [] ∧
      (∀ spec ∈ mixed, spec.field ≠ "" ∧ ∀ c ∈ spec.field.toList, Text.isBlank c = false) ∧
      readList shown = .ok mixed ∧
      (∃ e, r.explain "T" { Query.all with order := mixed } = .ok e ∧
        e.toJson.field "order" = shown) ∧
      readList (.string "id, role DESC,") =
        readList (.array [.string "id", .string " role DESC", .string ""]) := by
  intro j shown r
  obtain ⟨hread, hpieces⟩ := readList_explained
  have hj : readList j = .ok mixed := eq_ok_of_toOption (by decide +kernel)
  have hne : mixed ≠ [] := by decide
  have hok : (r.explain "T" { Query.all with order := mixed }).isOk = true := by
    decide +kernel
  obtain ⟨e, he⟩ := exists_of_isOk hok
  obtain ⟨hfields, hback, hshown⟩ := hread j mixed hj hne
  exact ⟨hj, hne, hfields, hback, ⟨e, he, hshown r "T" _ e rfl he⟩, hpieces _⟩

end OrderSpec

end KeyedQuery
