import KeyedQuery.Dataset
import KeyedQuery.Proofs.Coercion
import KeyedQuery.Proofs.Dict
import KeyedQuery.Proofs.Read.Everything
import KeyedQuery.Proofs.Schema.Registry
import KeyedQuery.Proofs.Store.Fill

/-!
# What a dataset answers

Tables are created for the models in name order and filled with the records that
the data file lists, each of them coerced with the schema of its own model.
Models may share a table.  Then the table has the schema of the last of them, its
primary key decides which records replace each other, and a model is answered
with the records of all.  A model with a table of its own is answered with its
own records.
-/

namespace KeyedQuery

/-! ## What is listed -/

/-- The records of a list. -/
def Json.records : Json → List Record
  | .array items => items.filterMap Record.ofJson?
  | _ => []

def Json.fields : Json → List (String × Json)
  | .object fields => fields
  | _ => []

/-- A list of objects under the name of a model. -/
structure Registry.Lists (r : Registry) (field : String × Json) (m : Model) : Prop where
  model : r.models.get? field.1 = some m
  items : ∃ items, field.2 = .array items ∧ ∀ j ∈ items, (Record.ofJson? j).isSome = true

namespace Registry

/-- The last model, in name order, that is stored in a table. -/
def lastIn? (r : Registry) (table : String) : Option Model :=
  ((r.models.entries.map Prod.snd).filter fun m => m.tableName == table).getLast?

/-- No other model is stored in the table of a model. -/
def Alone (r : Registry) (name : String) (m : Model) : Prop :=
  ∀ entry ∈ r.models.entries, entry.2.tableName = m.tableName → entry.1 = name

instance (r : Registry) (name : String) (m : Model) : Decidable (r.Alone name m) :=
  inferInstanceAs (Decidable (∀ entry ∈ r.models.entries, _ → _))

end Registry

theorem Record.read_eq_ok_iff {j : Json} {record : Record} :
    Record.read j = .ok record ↔ Record.ofJson? j = some record := by
  unfold Record.read
  cases Record.ofJson? j <;> simp

/-! ## Registries -/

namespace Registry

variable {r : Registry} {m : Model}

theorem exists_lastIn? {name : String} (h : r.models.get? name = some m) :
    ∃ last, r.lastIn? m.tableName = some last ∧ last.tableName = m.tableName ∧
      ∃ other, r.models.get? other = some last := by
  have hmem : m ∈ r.models.entries.map Prod.snd := List.mem_map.mpr ⟨_, Dict.mem_of_get? h, rfl⟩
  have hstored : m ∈ (r.models.entries.map Prod.snd).filter
      fun other => other.tableName == m.tableName := List.mem_filter.mpr ⟨hmem, by simp⟩
  obtain ⟨last, hlast⟩ : ∃ last, r.lastIn? m.tableName = some last :=
    Option.isSome_iff_exists.mp (List.getLast?_isSome.mpr (List.ne_nil_of_mem hstored))
  obtain ⟨hlastMem, htable⟩ := List.mem_filter.mp (List.mem_of_getLast? hlast)
  obtain ⟨⟨other, _⟩, hentry, rfl⟩ := List.mem_map.mp hlastMem
  exact ⟨_, hlast, by simpa using htable, other, Dict.get?_of_mem hentry⟩

theorem Alone.lastIn? {name : String} (h : r.Alone name m) (hmodel : r.models.get? name = some m) :
    r.lastIn? m.tableName = some m := by
  obtain ⟨last, hlast, htable, other, hother⟩ := exists_lastIn? hmodel
  have hname : other = name := h (other, last) (Dict.mem_of_get? hother) htable
  rw [hname, hmodel] at hother
  rw [hlast, ← hother]

end Registry

/-! ## Loading -/

namespace MemoryStore

variable {s s' : MemoryStore} {r : Registry}

end MemoryStore

end KeyedQuery
