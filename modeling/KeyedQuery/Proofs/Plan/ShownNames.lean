import KeyedQuery.Proofs.Plan.Placeholders

/-!
# Plans with attribute names

An explanation shows the texts of a plan with attribute names in place of the
aliases.  An alias is followed by nothing or by a character that ends a word, so it
is replaced whole, also where another alias begins as it does; and a name that has
been put into the text is not read again, so it may look like an alias itself.
-/

namespace KeyedQuery

variable {names : Dict String}

/-! ## One character -/

theorem replaceAliases_mark (rest : List Char) :
    replaceAliases names none ('#' :: rest) = replaceAliases names (some ['#']) rest :=
  if_pos rfl

theorem replaceAliases_of_ne {c : Char} (h : c ≠ '#') (rest : List Char) :
    replaceAliases names none (c :: rest) = c :: replaceAliases names none rest :=
  if_neg h

theorem replaceAliases_of_isWordChar {c : Char} (h : isWordChar c = true)
    (word rest : List Char) :
    replaceAliases names (some word) (c :: rest) =
      replaceAliases names (some (word ++ [c])) rest :=
  if_pos h

/-- Where a word ends, the alias is looked up and reading starts afresh. -/
theorem replaceAliases_of_endsWord {rest : List Char} (h : EndsWord rest) (word : List Char) :
    replaceAliases names (some word) rest =
      (nameOfAlias names (String.ofList word)).toList ++ replaceAliases names none rest := by
  cases rest with
  | nil => exact (List.append_nil _).symm
  | cons c rest => exact if_neg (Bool.eq_false_iff.mp (h c rfl))

/-! ## Texts -/

/-- In front of anything that ends a word, replacing the aliases of a text shows it so. -/
def Shows (names : Dict String) (text shown : List Char) : Prop :=
  EndsWord text ∧ ∀ rest, EndsWord rest →
    replaceAliases names none (text ++ rest) = shown ++ replaceAliases names none rest

theorem shows_nil : Shows names [] [] :=
  ⟨endsWord_nil, fun _ _ => rfl⟩

theorem Shows.append {a b s t : List Char} (ha : Shows names a s) (hb : Shows names b t) :
    Shows names (a ++ b) (s ++ t) := by
  refine ⟨ha.1.append hb.1, fun rest hrest => ?_⟩
  rw [List.append_assoc, ha.2 (b ++ rest) (hb.1.append hrest), hb.2 rest hrest,
    List.append_assoc]

theorem Shows.intercalate {α : Type} {text shown : α → List Char} {separator : List Char}
    {xs : List α} (hsep : Shows names separator separator)
    (h : ∀ x ∈ xs, Shows names (text x) (shown x)) :
    Shows names (separator.intercalate (xs.map text)) (separator.intercalate (xs.map shown)) :=
  related_intercalate shows_nil Shows.append hsep h

/-- A text without the mark of aliases is shown as it is. -/
theorem shows_of_not_mem {text : List Char} (hend : EndsWord text) (h : '#' ∉ text) :
    Shows names text text := by
  refine ⟨hend, fun rest _ => ?_⟩
  clear hend
  induction text with
  | nil => rfl
  | cons c text ih =>
      rw [List.mem_cons, not_or] at h
      rw [List.cons_append, replaceAliases_of_ne (Ne.symm h.1), ih h.2, List.cons_append]

theorem shows_literal (names : Dict String) (text : String)
    (h : text.toList.head?.any isWordChar = false ∧ '#' ∉ text.toList) :
    Shows names text.toList text.toList := by
  refine shows_of_not_mem (fun c hc => ?_) h.2
  simpa [hc] using h.1

/-- Reading goes on to the end of the word, whatever shorter aliases there are. -/
theorem replaceAliases_word {before word rest : List Char}
    (hword : ∀ c ∈ word, isWordChar c = true) (hrest : EndsWord rest) :
    replaceAliases names (some before) (word ++ rest) =
      (nameOfAlias names (String.ofList (before ++ word))).toList ++
        replaceAliases names none rest := by
  induction word generalizing before with
  | nil => rw [List.nil_append, List.append_nil, replaceAliases_of_endsWord hrest]
  | cons c word ih =>
      obtain ⟨hc, hword⟩ := List.forall_mem_cons.mp hword
      rw [List.cons_append, replaceAliases_of_isWordChar hc, ih hword, List.append_assoc]
      rfl

theorem shows_alias {path : String} (h : MarkedWord '#' path) :
    Shows names path.toList (nameOfAlias names path).toList := by
  refine ⟨h.endsWord (by decide), fun rest hrest => ?_⟩
  obtain ⟨word, _, hword, rfl⟩ := h
  rw [String.toList_ofList, List.cons_append, replaceAliases_mark,
    replaceAliases_word hword hrest]
  rfl

theorem shows_placeholder {name : String} (h : MarkedWord ':' name) :
    Shows names name.toList name.toList := by
  refine shows_of_not_mem (h.endsWord (by decide)) ?_
  obtain ⟨word, _, hword, rfl⟩ := h
  rw [String.toList_ofList, List.mem_cons, not_or]
  exact ⟨by decide, fun hmem => absurd (hword '#' hmem) (by decide)⟩

theorem Shows.resolveNames {text shown : String} (h : Shows names text.toList shown.toList) :
    resolveNames names text = shown := by
  have hall := h.2 [] endsWord_nil
  rw [List.append_nil] at hall
  rw [KeyedQuery.resolveNames, hall]
  exact (congrArg String.ofList (List.append_nil _)).trans String.ofList_toList

/-! ## Fragments -/

namespace Fragment

/-- The conjunction of fragments, with a rendering of their aliases. -/
def conjunctionAs (nameOf : String → String) (fragments : List Fragment) : Option String :=
  if fragments.isEmpty then none else some (" AND ".intercalate (fragments.map (render nameOf)))

theorem shows_operator (op : Comparator) :
    Shows names (" " ++ op.symbol ++ " ").toList (" " ++ op.symbol ++ " ").toList := by
  apply shows_literal
  cases op with
  | order op => cases op <;> decide
  | _ => decide

theorem shows_comparison {path placeholder : String} (op : Comparator)
    (h : MarkedWord '#' path ∧ MarkedWord ':' placeholder) :
    Shows names (path ++ " " ++ op.symbol ++ " " ++ placeholder).toList
      (nameOfAlias names path ++ " " ++ op.symbol ++ " " ++ placeholder).toList := by
  simpa using ((shows_alias h.1).append (shows_operator op)).append (shows_placeholder h.2)

/-- The text of a fragment is shown with the names of its aliases. -/
theorem shows_text {f : Fragment} (h : f.Spelled) :
    Shows names f.text.toList (f.render (nameOfAlias names)).toList := by
  cases f with
  | compare path op placeholder => exact shows_comparison op h
  | between path low high =>
      obtain ⟨hpath, hlow, hhigh⟩ := h
      have hbetween := shows_literal names " BETWEEN " (by decide)
      have hand := shows_literal names " AND " (by decide)
      have hshown := ((((shows_alias hpath).append hbetween).append
        (shows_placeholder hlow)).append hand).append (shows_placeholder hhigh)
      simpa [text, render] using hshown
  | isIn path placeholders =>
      obtain ⟨hpath, _, hplaceholders⟩ := h
      have hlist := (shows_literal names ", " (by decide)).intercalate fun placeholder hmem =>
        shows_placeholder (hplaceholders placeholder hmem)
      have hshown := (((shows_alias hpath).append (shows_literal names " IN (" (by decide))).append
        hlist).append (shows_literal names ")" (by decide))
      simpa [text, render, String.toList_intercalate] using hshown
  | anyOf entries =>
      obtain ⟨_, hentries⟩ := h
      have hlist := (shows_literal names " OR " (by decide)).intercalate fun entry hmem =>
        shows_comparison .eq (hentries entry hmem)
      have hshown := ((shows_literal names "(" (by decide)).append hlist).append
        (shows_literal names ")" (by decide))
      simpa [text, render, String.toList_intercalate, Function.comp_def, Comparator.symbol]
        using hshown

/-- The text of a conjunction is shown as the conjunction with the names of its aliases. -/
theorem resolve_conjunction {fragments : List Fragment} (h : ∀ f ∈ fragments, f.Spelled) :
    (conjunction fragments).map (resolveNames names) =
      conjunctionAs (nameOfAlias names) fragments := by
  cases fragments with
  | nil => rfl
  | cons first others =>
      have hlist := (shows_literal names " AND " (by decide)).intercalate fun f hmem =>
        shows_text (h f hmem)
      refine congrArg some (Shows.resolveNames ?_)
      simpa [String.toList_intercalate, Function.comp_def] using hlist

/-! ## Names of aliases -/

theorem render_congr {f : Fragment} {nameOf nameOf' : String → String}
    (h : ∀ path ∈ f.aliases, nameOf path = nameOf' path) : f.render nameOf = f.render nameOf' := by
  cases f with
  | compare path op placeholder => simp only [render, h path (by simp)]
  | between path low high => simp only [render, h path (by simp)]
  | isIn path placeholders => simp only [render, h path (by simp)]
  | anyOf entries =>
      have hentries : ∀ entry ∈ entries, nameOf entry.1 = nameOf' entry.1 := fun entry hentry =>
        h entry.1 (by simpa using ⟨entry.2, hentry⟩)
      simp only [render]
      rw [List.map_congr_left fun entry hentry => by rw [hentries entry hentry]]

theorem conjunctionAs_congr {fragments : List Fragment} {nameOf nameOf' : String → String}
    (h : ∀ path ∈ fragments.flatMap aliases, nameOf path = nameOf' path) :
    conjunctionAs nameOf fragments = conjunctionAs nameOf' fragments := by
  have hrender : fragments.map (render nameOf) = fragments.map (render nameOf') :=
    List.map_congr_left fun f hf => render_congr fun path hpath =>
      h path (List.mem_flatMap.mpr ⟨f, hf, hpath⟩)
  rw [conjunctionAs, conjunctionAs, hrender]

end Fragment

/-- The aliases of a fragment stand for the attributes that the entry mentions, in order. -/
theorem Renders.names_aliases {b : Bindings} {c : Clause} {f : Fragment} (h : Renders b c f) :
    List.Forall₂ (fun path name => b.names.get? path = some name) f.aliases c.mentions := by
  cases h with
  | equals hpath _ => exact .cons hpath.2 .nil
  | compare hpath _ => exact .cons hpath.2 .nil
  | between hpath _ _ => exact .cons hpath.2 .nil
  | isIn hpath _ _ =>
      rw [Fragment.aliases_isIn]
      exact .cons hpath.2 .nil
  | anyOf _ hentries =>
      rw [Fragment.aliases_anyOf, Clause.mentions_anyOf, List.forall₂_map_left_iff,
        List.forall₂_map_right_iff]
      exact hentries.imp fun _ _ h => h.1.2

section

variable {b : Bindings} {clauses : List Clause} {fragments : List Fragment}
  {nameOf : String → String}

/-- What is shown of rendered entries, for any naming of aliases that agrees with the table. -/
theorem resolve_conjunction_of_renders (h : List.Forall₂ (Renders b) clauses fragments)
    (hname : ∀ path name, b.names.get? path = some name → nameOf path = name) :
    (Fragment.conjunction fragments).map (resolveNames b.names) =
      Fragment.conjunctionAs nameOf fragments := by
  rw [Fragment.resolve_conjunction (Bindings.spelled_of_forall₂ h)]
  refine Fragment.conjunctionAs_congr fun path hpath => ?_
  obtain ⟨f, hf, hpath⟩ := List.mem_flatMap.mp hpath
  obtain ⟨clause, _, hrenders⟩ := exists_of_mem_forall₂ h.flip hf
  obtain ⟨name, _, hget⟩ := exists_of_mem_forall₂ (Renders.names_aliases hrenders) hpath
  rw [hname path name hget, nameOfAlias, hget, Option.getD_some]

theorem map_aliases_of_renders (h : List.Forall₂ (Renders b) clauses fragments)
    (hname : ∀ path name, b.names.get? path = some name → nameOf path = name) :
    List.Forall₂ (fun clause f => f.aliases.map nameOf = clause.mentions) clauses fragments := by
  refine h.imp fun clause f hrenders => ?_
  rw [← List.forall₂_eq_eq_eq, List.forall₂_map_left_iff]
  exact (Renders.names_aliases hrenders).imp hname

end

/--
The texts of a plan, with the aliases replaced, are the renderings of its fragments in
which every alias is the attribute that it stands for, under any naming that agrees with
the table; and that is the attribute which the entry of the clause mentions there.
-/
theorem Model.plan_shownNames {m : Model} {w : WhereClause} {p : Plan} (h : m.plan w = .ok p) :
    ∃ coerced, m.schema.coerceWhere w = .ok coerced ∧
      ∀ nameOf : String → String,
        (∀ path name, p.bindings.names.get? path = some name → nameOf path = name) →
        p.keyCondition.map (resolveNames p.bindings.names) =
            Fragment.conjunctionAs nameOf p.keyConditions ∧
          p.filter.map (resolveNames p.bindings.names) =
            Fragment.conjunctionAs nameOf p.filters ∧
          List.Forall₂ (fun clause f => f.aliases.map nameOf = clause.mentions)
            (coerced.conditionsOn (m.schema.keyAttributes p.classification) ++
              coerced.clauses.filter fun clause =>
                !clause.isOnOneOf (m.schema.keyAttributes p.classification))
            (p.keyConditions ++ p.filters) := by
  obtain ⟨coerced, hcoerced, _, hof⟩ := of_plan h
  have hkeys := hof.keyConditions.imp fun _ _ h => h.1
  refine ⟨coerced, hcoerced, fun nameOf hname => ⟨?_, ?_, ?_⟩⟩
  · exact resolve_conjunction_of_renders hkeys hname
  · exact resolve_conjunction_of_renders hof.filters hname
  · exact map_aliases_of_renders (List.rel_append hkeys hof.filters) hname

/-- Attributes that are named like aliases of other ones, or whose aliases begin alike. -/
def WhereClause.lookalikes : WhereClause :=
  let w := WhereClause.empty.set "realm" (.equals (.string "x"))
  let w := w.set "role" (.between (.int 1) (.int 5))
  let w := w.set "#R" (.isIn [.string "p", .string "q"])
  let w := w.set "#RO" (.compare .lt (.int 3))
  w.addAnyOf [("ROLE", .int 1), ("a#b", .int 2)]

theorem Model.plan_shownNames_lookalikes :
    let m : Model := ⟨"m", none, KeySchema.ofHashKey "realm" .string⟩
    ∃ p, m.plan .lookalikes = .ok p ∧
      p.filter = some ("#RO BETWEEN :role_start AND :role_end AND #_ IN (:_R_0, :_R_1) AND " ++
        "#_R < :_RO AND (#ROL = :ROLE OR #A = :a_b)") ∧
      p.filter.map (resolveNames p.bindings.names) =
        some ("role BETWEEN :role_start AND :role_end AND #R IN (:_R_0, :_R_1) AND " ++
          "#RO < :_RO AND (ROLE = :ROLE OR a#b = :a_b)") ∧
      p.filter.map (resolveNames p.bindings.names) =
        Fragment.conjunctionAs (nameOfAlias p.bindings.names) p.filters := by
  intro m
  have htexts : (m.plan .lookalikes).toOption.map (fun p =>
        (p.filter, Fragment.conjunctionAs (nameOfAlias p.bindings.names) p.filters)) =
      some (some ("#RO BETWEEN :role_start AND :role_end AND #_ IN (:_R_0, :_R_1) AND " ++
          "#_R < :_RO AND (#ROL = :ROLE OR #A = :a_b)"),
        some ("role BETWEEN :role_start AND :role_end AND #R IN (:_R_0, :_R_1) AND " ++
          "#RO < :_RO AND (ROLE = :ROLE OR a#b = :a_b)")) := by
    decide +kernel
  cases hp : m.plan .lookalikes with
  | error fault =>
      rw [hp] at htexts
      cases htexts
  | ok p =>
      rw [hp] at htexts
      obtain ⟨hfilter, hnamed⟩ := Prod.mk.inj (Option.some.inj htexts)
      obtain ⟨_, _, hall⟩ := plan_shownNames hp
      have hname : ∀ path name, p.bindings.names.get? path = some name →
          nameOfAlias p.bindings.names path = name := by
        intro path name hget
        rw [nameOfAlias, hget, Option.getD_some]
      have hshown := (hall _ hname).2.1
      exact ⟨p, rfl, hfilter, hshown.trans hnamed, hshown⟩

end KeyedQuery
