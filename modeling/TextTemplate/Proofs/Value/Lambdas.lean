import TextTemplate.Value.Operation

/-! The lambdas that a value holds, in arrays, maps and objects too. Operations on values make no
lambdas: what their results hold, their operands held before. -/

namespace TextTemplate

namespace Value

mutual

def closures : Value → List Closure
  | .array items => closuresIn items
  | .map entries => closuresUnder entries
  | .closure f => [f]
  | .object _ _ members _ => closuresUnder members
  | .null | .bool _ | .int _ | .float _ | .string _ | .hostFunction _ => []

def closuresIn : List Value → List Closure
  | [] => []
  | v :: vs => closures v ++ closuresIn vs

def closuresUnder : List (String × Value) → List Closure
  | [] => []
  | (_, v) :: es => closures v ++ closuresUnder es

end

def Only (p : Closure → Prop) (v : Value) : Prop :=
  ∀ f ∈ v.closures, p f

variable {p q : Closure → Prop} {v : Value}

theorem Only.mono (h : v.Only p) (hpq : ∀ f, p f → q f) : v.Only q :=
  fun f hf => hpq f (h f hf)

theorem only_of_closures_eq_nil (h : v.closures = []) : v.Only p :=
  fun f hf => by simp [h] at hf

theorem only_null : null.Only p :=
  only_of_closures_eq_nil rfl

theorem only_bool (b : Bool) : (bool b).Only p :=
  only_of_closures_eq_nil rfl

theorem only_closure {f : Closure} : (closure f).Only p ↔ p f := by
  simp [Only, closures]

theorem only_array {vs : List Value} : (array vs).Only p ↔ ∀ v ∈ vs, v.Only p := by
  show (∀ f ∈ closuresIn vs, p f) ↔ _
  induction vs with
  | nil => simp [closuresIn]
  | cons v vs ih => rw [List.forall_mem_cons, ← ih, closuresIn, List.forall_mem_append]; rfl

theorem forall_closuresUnder {es : List (String × Value)} :
    (∀ f ∈ closuresUnder es, p f) ↔ ∀ e ∈ es, e.2.Only p := by
  induction es with
  | nil => simp [closuresUnder]
  | cons e es ih => rw [List.forall_mem_cons, ← ih, closuresUnder, List.forall_mem_append]; rfl

theorem only_map {es : List (String × Value)} : (map es).Only p ↔ ∀ e ∈ es, e.2.Only p :=
  forall_closuresUnder

theorem closures_literal (l : Literal) : l.value.closures = [] := by
  cases l <;> rfl

theorem closures_arithmetic {op : ArithmeticOp} {a b : Value} (h : arithmetic op a b = .ok v) :
    v.closures = [] := by
  obtain ⟨l, rfl⟩ := exists_literal_of_arithmetic h
  exact closures_literal l

theorem closures_binary {op : BinaryOp} {a b : Value} (h : binary op a b = .ok v) :
    v.closures = [] := by
  obtain ⟨l, rfl⟩ := exists_literal_of_binary h
  exact closures_literal l

theorem closures_unary {op : UnaryOp} {a : Value} (h : unary op a = .ok v) : v.closures = [] := by
  obtain ⟨l, rfl⟩ := exists_literal_of_unary h
  exact closures_literal l

theorem Only.member? {name : String} {m : Value} (hv : v.Only p) (h : v.member? name = some m) :
    m.Only p := by
  unfold Value.member? at h
  split at h
  · exact only_map.1 hv _ (Entries.mem_of_find? h)
  · exact forall_closuresUnder.1 hv _ (Entries.mem_of_find? h)
  · split at h
    · obtain rfl := Option.some.inj h
      exact only_of_closures_eq_nil rfl
    · cases h
  · split at h
    · obtain rfl := Option.some.inj h
      exact only_of_closures_eq_nil rfl
    · cases h
  · cases h

theorem Only.member {name : String} {m : Value} (hv : v.Only p) (h : v.member name = .ok m) :
    m.Only p := by
  unfold Value.member at h
  split at h
  · rename_i m' hm
    obtain rfl := Except.ok.inj h
    exact hv.member? hm
  · cases h

theorem Only.elements {vs : List Value} (hv : v.Only p) (h : v.elements = .ok vs) :
    ∀ u ∈ vs, u.Only p := by
  unfold Value.elements at h
  split at h
  · obtain rfl := Except.ok.inj h
    exact only_array.1 hv
  · obtain rfl := Except.ok.inj h
    intro u hu
    obtain ⟨e, -, rfl⟩ := List.mem_map.1 hu
    exact only_of_closures_eq_nil rfl
  · obtain rfl := Except.ok.inj h
    intro u hu
    obtain ⟨c, -, rfl⟩ := List.mem_map.1 hu
    exact only_of_closures_eq_nil rfl
  · cases h

end Value
end TextTemplate
