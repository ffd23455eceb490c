/-! Entries under text keys in the order in which the keys were first inserted. A key inserted
again keeps its place and takes the new value. -/

namespace TextTemplate.Entries

variable {α : Type}

def keys (es : List (String × α)) : List String :=
  es.map Prod.fst

def find? (k : String) : List (String × α) → Option α
  | [] => none
  | (k', v) :: es => if k' = k then some v else find? k es

def insert (k : String) (v : α) : List (String × α) → List (String × α)
  | [] => [(k, v)]
  | (k', v') :: es => if k' = k then (k', v) :: es else (k', v') :: insert k v es

def erase (k : String) (es : List (String × α)) : List (String × α) :=
  es.filter fun e => e.1 ≠ k

def readOr {β : Type} (read : α → Option β) (default : β) (k : String)
    (es : List (String × α)) : Option β :=
  match find? k es with
  | some v => read v
  | none => some default

def ofList (es : List (String × α)) : List (String × α) :=
  es.foldl (fun acc e => insert e.1 e.2 acc) []

theorem find?_insert (k j : String) (v : α) (es : List (String × α)) :
    find? j (insert k v es) = if k = j then some v else find? j es := by
  induction es with
  | nil => simp [insert, find?]
  | cons e es ih =>
    by_cases h : e.1 = k
    · by_cases hk : k = j <;> simp [insert, find?, h, hk]
    · by_cases hk : k = j
      · subst hk
        simp [insert, find?, h, ih]
      · simp [insert, find?, h, hk, ih]

theorem erase_cons (k : String) (e : String × α) (es : List (String × α)) :
    erase k (e :: es) = if e.1 = k then erase k es else e :: erase k es := by
  by_cases h : e.1 = k <;> simp [erase, h]

theorem find?_erase (k j : String) (es : List (String × α)) :
    find? j (erase k es) = if k = j then none else find? j es := by
  induction es with
  | nil => simp [erase, find?]
  | cons e es ih =>
    rw [erase_cons]
    by_cases hk : k = j
    · subst hk
      by_cases h : e.1 = k <;> simp [find?, ih, h]
    · by_cases h : e.1 = k <;> simp [find?, ih, h, hk]

theorem keys_erase (k : String) (es : List (String × α)) :
    keys (erase k es) = (keys es).filter (· ≠ k) := by
  simp only [keys, erase, List.filter_map, Function.comp_def]

theorem mem_of_find? {k : String} {v : α} {es : List (String × α)} (h : find? k es = some v) :
    (k, v) ∈ es := by
  induction es with
  | nil => cases h
  | cons e es ih =>
    simp only [find?] at h
    split at h
    · rename_i hk
      obtain rfl := Option.some.inj h
      exact hk ▸ List.mem_cons_self
    · exact List.mem_cons_of_mem _ (ih h)

theorem mem_keys_of_mem {k : String} {v : α} {es : List (String × α)} (h : (k, v) ∈ es) :
    k ∈ keys es :=
  List.mem_map.2 ⟨(k, v), h, rfl⟩

theorem find?_eq_some_iff {k : String} {v : α} {es : List (String × α)} (h : (keys es).Nodup) :
    find? k es = some v ↔ (k, v) ∈ es := by
  refine ⟨mem_of_find?, fun hmem => ?_⟩
  induction es with
  | nil => cases hmem
  | cons e es ih =>
    obtain ⟨k', v'⟩ := e
    obtain ⟨hnot, hrest⟩ := List.nodup_cons.1 h
    rcases List.mem_cons.1 hmem with heq | hmem
    · obtain ⟨rfl, rfl⟩ := Prod.mk.inj heq
      simp [find?]
    · have hne : k' ≠ k := by
        rintro rfl
        exact hnot (mem_keys_of_mem hmem)
      simpa [find?, hne] using ih hrest hmem

theorem exists_find?_iff {k : String} {es : List (String × α)} :
    (∃ v, find? k es = some v) ↔ k ∈ keys es := by
  induction es with
  | nil => simp [find?, keys]
  | cons e es ih =>
    by_cases h : e.1 = k
    · simp [find?, keys, h]
    · simpa [find?, keys, h, Ne.symm h] using ih

theorem forall_insert {p : α → Prop} {k : String} {v : α} {es : List (String × α)} (hv : p v)
    (hes : ∀ e ∈ es, p e.2) : ∀ e ∈ insert k v es, p e.2 := by
  induction es with
  | nil => simpa [insert] using hv
  | cons e es ih =>
    rw [List.forall_mem_cons] at hes
    simp only [insert]
    split
    · exact List.forall_mem_cons.2 ⟨hv, hes.2⟩
    · exact List.forall_mem_cons.2 ⟨hes.1, ih hes.2⟩

theorem mem_keys_insert {k j : String} {v : α} {es : List (String × α)} :
    j ∈ keys (insert k v es) ↔ j = k ∨ j ∈ keys es := by
  induction es with
  | nil => simp [insert, keys]
  | cons e es ih =>
    by_cases h : e.1 = k
    · simp [insert, keys, h]
    · simp only [keys] at ih
      simp only [insert, h, if_false, keys, List.map_cons, List.mem_cons, ih]
      exact or_left_comm

theorem nodup_keys_insert {k : String} {v : α} {es : List (String × α)} (h : (keys es).Nodup) :
    (keys (insert k v es)).Nodup := by
  induction es with
  | nil => simp [insert, keys]
  | cons e es ih =>
    simp only [keys, List.map_cons, List.nodup_cons] at h
    by_cases he : e.1 = k
    · subst he
      simpa [insert, keys] using h
    · have hi := ih h.2
      simp only [insert, he, if_false, keys, List.map_cons, List.nodup_cons]
      refine ⟨fun hm => ?_, hi⟩
      rcases mem_keys_insert.1 hm with h1 | h1
      · exact he h1
      · exact h.1 h1

theorem nodup_keys_ofList (es : List (String × α)) : (keys (ofList es)).Nodup := by
  suffices ∀ acc : List (String × α), (keys acc).Nodup →
      (keys (es.foldl (fun acc e => insert e.1 e.2 acc) acc)).Nodup from this [] (by simp [keys])
  induction es with
  | nil => exact fun _ h => h
  | cons e es ih => exact fun acc h => ih _ (nodup_keys_insert h)

theorem keys_map {β : Type} (f : α → β) (es : List (String × α)) :
    keys (es.map (Prod.map id f)) = keys es := by
  simp [keys, Function.comp_def]

theorem insert_of_notMem {k : String} {v : α} {es : List (String × α)} (h : k ∉ keys es) :
    insert k v es = es ++ [(k, v)] := by
  induction es with
  | nil => rfl
  | cons e es ih =>
    simp only [keys, List.map_cons, List.mem_cons, not_or] at h
    have hrest : insert k v es = es ++ [(k, v)] := ih h.2
    simp [insert, Ne.symm h.1, hrest]

theorem ofList_of_nodup {es : List (String × α)} (h : (keys es).Nodup) : ofList es = es := by
  suffices ∀ acc : List (String × α), (keys (acc ++ es)).Nodup →
      es.foldl (fun acc e => insert e.1 e.2 acc) acc = acc ++ es from this [] h
  clear h
  induction es with
  | nil => exact fun acc _ => (List.append_nil acc).symm
  | cons e es ih =>
    intro acc h
    have hfresh : e.1 ∉ keys acc := by
      intro hmem
      rw [keys, List.map_append, List.nodup_append] at h
      exact h.2.2 e.1 hmem e.1 List.mem_cons_self rfl
    rw [List.foldl_cons, insert_of_notMem hfresh, ih, List.append_assoc, List.singleton_append]
    rwa [List.append_assoc, List.singleton_append]

end TextTemplate.Entries
