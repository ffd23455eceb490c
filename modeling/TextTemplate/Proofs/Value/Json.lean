import TextTemplate.Proofs.Value.Equality
import TextTemplate.Proofs.Value.Integers
import TextTemplate.Value.Json

/-! Which values come back from JSON as they went, and which JSON trees from values. The two
conversions are inverse to each other on what both sides can hold, and on nothing else: no function,
no object of the host, no float that is not finite, and on the side of JSON no integer beyond 64
bits with a sign. Keys are distinct on both sides, or the later of two would be lost. -/

namespace TextTemplate

namespace Entries

variable {α β : Type} {es : List (String × α)}

theorem insert_map (f : α → β) (k : String) (v : α) (es : List (String × α)) :
    insert k (f v) (es.map (Prod.map id f)) = (insert k v es).map (Prod.map id f) := by
  induction es with
  | nil => rfl
  | cons e es ih =>
    by_cases h : e.1 = k
    · simp [insert, h]
    · simpa [insert, h] using ⟨rfl, ih⟩

theorem ofList_map (f : α → β) (es : List (String × α)) :
    ofList (es.map (Prod.map id f)) = (ofList es).map (Prod.map id f) := by
  suffices ∀ acc : List (String × α),
      (es.map (Prod.map id f)).foldl (fun acc e => insert e.1 e.2 acc) (acc.map (Prod.map id f)) =
        (es.foldl (fun acc e => insert e.1 e.2 acc) acc).map (Prod.map id f) from this []
  induction es with
  | nil => exact fun _ => rfl
  | cons e es ih =>
    intro acc
    rw [List.map_cons, List.foldl_cons, List.foldl_cons, ← ih, Prod.map_fst, Prod.map_snd, id,
      insert_map]

theorem map_eq_self_iff {f : α → α} :
    es.map (Prod.map id f) = es ↔ ∀ e ∈ es, f e.2 = e.2 := by
  have hid : es.map (Prod.map id f) = es ↔ es.map (Prod.map id f) = es.map id := by
    rw [List.map_id]
  rw [hid, List.map_inj_left]
  simp [Prod.ext_iff]

theorem map_ofList_eq_self_iff {f : α → α} :
    (ofList es).map (Prod.map id f) = es ↔ (keys es).Nodup ∧ ∀ e ∈ es, f e.2 = e.2 := by
  constructor
  · intro h
    have hkeys : (keys es).Nodup := by
      have hnodup := nodup_keys_ofList es
      rwa [← keys_map f, h] at hnodup
    rw [ofList_of_nodup hkeys] at h
    exact ⟨hkeys, map_eq_self_iff.1 h⟩
  · rintro ⟨hkeys, hself⟩
    rw [ofList_of_nodup hkeys]
    exact map_eq_self_iff.2 hself

end Entries

/-- The values that JSON can hold: built from null, booleans, integers, finite floats and texts, in
arrays and in maps under distinct keys. -/
inductive Value.Plain : Value → Prop
  | null : Plain .null
  | bool (b : Bool) : Plain (.bool b)
  | int (i : Int64) : Plain (.int i)
  | float {x : Float} : x.isFinite = true → Plain (.float x)
  | string (s : String) : Plain (.string s)
  | array {items : List Value} : (∀ v ∈ items, Plain v) → Plain (.array items)
  | map {entries : List (String × Value)} : (Entries.keys entries).Nodup →
      (∀ e ∈ entries, Plain e.2) → Plain (.map entries)

namespace Json

/-- The JSON trees that values can hold: the numbers in them are integers of 64 bits with a sign or
finite floats, and the keys of each object are distinct. -/
inductive Exact : Json → Prop
  | null : Exact .null
  | bool (b : Bool) : Exact (.bool b)
  | int {i : Int} : FitsInt64 i → Exact (.int i)
  | float {x : Float} : x.isFinite = true → Exact (.float x)
  | string (s : String) : Exact (.string s)
  | array {items : List Json} : (∀ j ∈ items, Exact j) → Exact (.array items)
  | object {members : List (String × Json)} : (Entries.keys members).Nodup →
      (∀ m ∈ members, Exact m.2) → Exact (.object members)

theorem induction_parts {motive : Json → Prop} (null : motive .null) (bool : ∀ b, motive (.bool b))
    (int : ∀ i, motive (.int i)) (float : ∀ x, motive (.float x))
    (string : ∀ s, motive (.string s))
    (array : ∀ items, (∀ j ∈ items, motive j) → motive (.array items))
    (object : ∀ members, (∀ m ∈ members, motive m.2) → motive (.object members))
    (j : Json) : motive j :=
  Json.rec (motive_1 := motive) (motive_2 := fun js => ∀ j ∈ js, motive j)
    (motive_3 := fun ms => ∀ m ∈ ms, motive m.2) (motive_4 := fun m => motive m.2) null bool int
    float string array object
    (fun _ h => nomatch h) (fun _ _ hj hjs => List.forall_mem_cons.2 ⟨hj, hjs⟩)
    (fun _ h => nomatch h) (fun _ _ hm hms => List.forall_mem_cons.2 ⟨hm, hms⟩) (fun _ _ h => h) j

end Json

namespace Value

theorem toJson_array (vs : List Value) : (array vs).toJson = .array (vs.map toJson) := by
  rw [toJson]
  congr 1
  induction vs with
  | nil => rfl
  | cons v vs ih => rw [toJsonItems, ih, List.map_cons]

theorem toJson_map (es : List (String × Value)) :
    (map es).toJson = .object (es.map (Prod.map id toJson)) := by
  rw [toJson]
  congr 1
  induction es with
  | nil => rfl
  | cons e es ih => rw [toJsonEntries, ih, List.map_cons, Prod.map, id]

theorem ofJson_array (js : List Json) : ofJson (.array js) = .array (js.map ofJson) := by
  rw [ofJson]
  congr 1
  induction js with
  | nil => rfl
  | cons j js ih => rw [ofJsonItems, ih, List.map_cons]

theorem ofJson_object (ms : List (String × Json)) :
    ofJson (.object ms) = .map (Entries.ofList (ms.map (Prod.map id ofJson))) := by
  have hmembers : ofJsonMembers ms = ms.map (Prod.map id ofJson) := by
    induction ms with
    | nil => rfl
    | cons m ms ih => rw [ofJsonMembers, ih, List.map_cons, Prod.map, id]
  rw [ofJson, hmembers]

theorem ofInt_of_fits {i : Int} (h : FitsInt64 i) : ofInt i = .int (Int64.ofInt i) :=
  if_pos (fitsInt64_iff_range.1 h)

theorem ofInt_of_not_fits {i : Int} (h : ¬ FitsInt64 i) : ∃ x, ofInt i = .float x :=
  ⟨_, if_neg (mt fitsInt64_iff_range.2 h)⟩

theorem fitsInt64_toInt (i : Int64) : FitsInt64 i.toInt :=
  ⟨i.le_toInt, i.toInt_lt⟩

theorem ofJson_toJson_float (x : Float) :
    ofJson (float x).toJson = float x ↔ x.isFinite = true := by
  by_cases h : x.isFinite = true <;> simp [toJson, ofJson, h]

theorem ofJson_toJson_eq_iff (v : Value) : ofJson v.toJson = v ↔ v.Plain := by
  induction v using induction_parts with
  | null => exact iff_of_true rfl .null
  | bool b => exact iff_of_true rfl (.bool b)
  | int i =>
    refine iff_of_true ?_ (.int i)
    rw [toJson, ofJson, ofInt_of_fits (fitsInt64_toInt i), Int64.ofInt_toInt]
  | float x =>
    rw [ofJson_toJson_float]
    exact ⟨.float, fun | .float h => h⟩
  | string s => exact iff_of_true rfl (.string s)
  | array vs ih =>
    have hback : vs.map (ofJson ∘ toJson) = vs.map id ↔ ∀ v ∈ vs, v.Plain := by
      rw [List.map_inj_left]
      exact forall₂_congr ih
    rw [List.map_id] at hback
    rw [toJson_array, ofJson_array, List.map_map, array.injEq, hback]
    exact ⟨.array, fun | .array h => h⟩
  | map es ih =>
    have hback : (∀ e ∈ es, (ofJson ∘ toJson) e.2 = e.2) ↔ ∀ e ∈ es, e.2.Plain :=
      forall₂_congr fun e he => ih e he
    rw [toJson_map, ofJson_object, map.injEq, Entries.ofList_map, Entries.ofList_map, List.map_map,
      Prod.map_comp_map, Function.id_comp, Entries.map_ofList_eq_self_iff, hback]
    exact ⟨fun h => .map h.1 h.2, fun | .map hkeys h => ⟨hkeys, h⟩⟩
  | hostFunction f => exact iff_of_false nofun nofun
  | closure f => exact iff_of_false nofun nofun
  | object id typeName members shown => exact iff_of_false nofun nofun

theorem toJson_ofJson_eq_iff (j : Json) : (ofJson j).toJson = j ↔ j.Exact := by
  induction j using Json.induction_parts with
  | null => exact iff_of_true rfl .null
  | bool b => exact iff_of_true rfl (.bool b)
  | int i =>
    rw [ofJson]
    by_cases h : FitsInt64 i
    · refine iff_of_true ?_ (.int h)
      rw [ofInt_of_fits h, toJson, (int64?_of_fits h).2]
    · obtain ⟨x, hx⟩ := ofInt_of_not_fits h
      refine iff_of_false ?_ fun | .int hi => h hi
      rw [hx, toJson]
      split <;> nofun
  | float x =>
    rw [ofJson, toJson]
    by_cases h : x.isFinite = true
    · exact iff_of_true (if_pos h) (.float h)
    · exact iff_of_false (by simp [h]) fun | .float hx => h hx
  | string s => exact iff_of_true rfl (.string s)
  | array js ih =>
    have hback : js.map (toJson ∘ ofJson) = js.map id ↔ ∀ j ∈ js, j.Exact := by
      rw [List.map_inj_left]
      exact forall₂_congr ih
    rw [List.map_id] at hback
    rw [ofJson_array, toJson_array, List.map_map, Json.array.injEq, hback]
    exact ⟨.array, fun | .array h => h⟩
  | object ms ih =>
    have hback : (∀ m ∈ ms, (toJson ∘ ofJson) m.2 = m.2) ↔ ∀ m ∈ ms, m.2.Exact :=
      forall₂_congr fun m hm => ih m hm
    rw [ofJson_object, toJson_map, Json.object.injEq, Entries.ofList_map, List.map_map,
      Prod.map_comp_map, Function.id_comp, Entries.map_ofList_eq_self_iff, hback]
    exact ⟨fun h => .object h.1 h.2, fun | .object hkeys h => ⟨hkeys, h⟩⟩

/-- The plain values, and no others, come back from JSON as they went: integers as integers, floats
as floats, and the entries of maps in their order. So do the exact JSON trees, and no others, from
values. -/
theorem json_round_trip :
    (∀ v : Value, ofJson v.toJson = v ↔ v.Plain) ∧
      ∀ j : Json, (ofJson j).toJson = j ↔ j.Exact := by
  constructor
  · exact ofJson_toJson_eq_iff
  · exact toJson_ofJson_eq_iff

end Value
end TextTemplate
