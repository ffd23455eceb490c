import Mathlib.Data.List.Nodup
import Mathlib.Data.List.Perm.Subperm
import TextTemplate.Value.Equality

/-! Equality of values as a relation. It is symmetric wherever the keys of each map are distinct:
that every key of one map has an equal value in another of the same length then leaves no key of the
other out. Among values without floats it is an equivalence relation. A float that is not a number
differs from itself, and two integers may both be equal to a float that lies between them. -/

namespace TextTemplate

namespace Value

mutual

def Keyed : Value → Prop
  | .array items => KeyedItems items
  | .map entries => (Entries.keys entries).Nodup ∧ KeyedUnder entries
  | .object _ _ members _ => KeyedUnder members
  | .null | .bool _ | .int _ | .float _ | .string _ | .hostFunction _ | .closure _ => True

def KeyedItems : List Value → Prop
  | [] => True
  | v :: vs => v.Keyed ∧ KeyedItems vs

def KeyedUnder : List (String × Value) → Prop
  | [] => True
  | (_, v) :: es => v.Keyed ∧ KeyedUnder es

end

mutual

/-- Whether a value is built without floats. What the host keeps in its objects is no part of
them. -/
def Floatless : Value → Prop
  | .float _ => False
  | .array items => FloatlessItems items
  | .map entries => FloatlessUnder entries
  | .null | .bool _ | .int _ | .string _ | .hostFunction _ | .closure _ | .object .. => True

def FloatlessItems : List Value → Prop
  | [] => True
  | v :: vs => v.Floatless ∧ FloatlessItems vs

def FloatlessUnder : List (String × Value) → Prop
  | [] => True
  | (_, v) :: es => v.Floatless ∧ FloatlessUnder es

end

theorem keyed_array {vs : List Value} : (array vs).Keyed ↔ ∀ v ∈ vs, v.Keyed := by
  show KeyedItems vs ↔ _
  induction vs with
  | nil => simp [KeyedItems]
  | cons v vs ih => rw [List.forall_mem_cons, ← ih, KeyedItems]

theorem keyedUnder_iff {es : List (String × Value)} : KeyedUnder es ↔ ∀ e ∈ es, e.2.Keyed := by
  induction es with
  | nil => simp [KeyedUnder]
  | cons e es ih => rw [List.forall_mem_cons, ← ih, KeyedUnder]

theorem keyed_map {es : List (String × Value)} :
    (map es).Keyed ↔ (Entries.keys es).Nodup ∧ ∀ e ∈ es, e.2.Keyed := by
  rw [Keyed, keyedUnder_iff]

theorem floatless_array {vs : List Value} : (array vs).Floatless ↔ ∀ v ∈ vs, v.Floatless := by
  show FloatlessItems vs ↔ _
  induction vs with
  | nil => simp [FloatlessItems]
  | cons v vs ih => rw [List.forall_mem_cons, ← ih, FloatlessItems]

theorem floatless_map {es : List (String × Value)} :
    (map es).Floatless ↔ ∀ e ∈ es, e.2.Floatless := by
  show FloatlessUnder es ↔ _
  induction es with
  | nil => simp [FloatlessUnder]
  | cons e es ih => rw [List.forall_mem_cons, ← ih, FloatlessUnder]

theorem induction_parts {motive : Value → Prop} (null : motive .null) (bool : ∀ b, motive (.bool b))
    (int : ∀ i, motive (.int i)) (float : ∀ x, motive (.float x))
    (string : ∀ s, motive (.string s))
    (array : ∀ items, (∀ v ∈ items, motive v) → motive (.array items))
    (map : ∀ entries, (∀ e ∈ entries, motive e.2) → motive (.map entries))
    (hostFunction : ∀ f, motive (.hostFunction f)) (closure : ∀ f, motive (.closure f))
    (object : ∀ id typeName members shown, motive (.object id typeName members shown))
    (v : Value) : motive v :=
  Value.rec (motive_1 := motive) (motive_2 := fun vs => ∀ v ∈ vs, motive v)
    (motive_3 := fun es => ∀ e ∈ es, motive e.2) (motive_4 := fun e => motive e.2) null bool int
    float string array map hostFunction closure
    (fun id typeName members shown _ => object id typeName members shown)
    (fun _ h => nomatch h) (fun _ _ hv hvs => List.forall_mem_cons.2 ⟨hv, hvs⟩)
    (fun _ h => nomatch h) (fun _ _ he hes => List.forall_mem_cons.2 ⟨he, hes⟩) (fun _ _ h => h) v

theorem equalItems_iff {as bs : List Value} :
    equalItems as bs = true ↔ List.Forall₂ (fun a b => a.equal b = true) as bs := by
  induction as generalizing bs with
  | nil => cases bs <;> simp [equalItems]
  | cons a as ih => cases bs <;> simp [equalItems, ih]

theorem equalUnder_iff {as bs : List (String × Value)} :
    equalUnder as bs = true ↔
      ∀ e ∈ as, ∃ b, Entries.find? e.1 bs = some b ∧ e.2.equal b = true := by
  induction as with
  | nil => simp [equalUnder]
  | cons a as ih =>
    rw [equalUnder, List.forall_mem_cons, Bool.and_eq_true, ih]
    cases Entries.find? a.1 bs <;> simp

theorem equal_array {as bs : List Value} :
    (array as).equal (array bs) = true ↔ List.Forall₂ (fun a b => a.equal b = true) as bs :=
  equalItems_iff

theorem equal_map {as bs : List (String × Value)} (ha : (Entries.keys as).Nodup)
    (hb : (Entries.keys bs).Nodup) :
    (map as).equal (map bs) = true ↔
      (∀ k, k ∈ Entries.keys as ↔ k ∈ Entries.keys bs) ∧
        ∀ k a b, Entries.find? k as = some a → Entries.find? k bs = some b →
          a.equal b = true := by
  have hlength (es : List (String × Value)) : (Entries.keys es).length = es.length :=
    List.length_map ..
  rw [equal, Bool.and_eq_true, beq_iff_eq, equalUnder_iff]
  constructor
  · rintro ⟨hlen, hunder⟩
    have hsub : Entries.keys as ⊆ Entries.keys bs := fun k hk => by
      obtain ⟨e, he, rfl⟩ := List.mem_map.1 hk
      obtain ⟨b, hfind, -⟩ := hunder e he
      exact Entries.exists_find?_iff.1 ⟨b, hfind⟩
    -- keys are counted: as many distinct ones on the left, all of them on the right
    have hcount : (Entries.keys bs).length = (Entries.keys as).length :=
      (hlength bs).trans (hlen.symm.trans (hlength as).symm)
    have hperm : (Entries.keys as).Perm (Entries.keys bs) :=
      (List.subperm_of_subset ha hsub).perm_of_length_le (Nat.le_of_eq hcount)
    refine ⟨fun k => hperm.mem_iff, fun k a b hfinda hfindb => ?_⟩
    obtain ⟨b', hfind, hequal⟩ := hunder (k, a) (Entries.mem_of_find? hfinda)
    obtain rfl := Option.some.inj (hfind.symm.trans hfindb)
    exact hequal
  · rintro ⟨hkeys, hvalues⟩
    have hperm := (List.perm_ext_iff_of_nodup ha hb).2 hkeys
    refine ⟨by rw [← hlength as, hperm.length_eq, hlength], fun e he => ?_⟩
    obtain ⟨b, hfind⟩ := Entries.exists_find?_iff.2 ((hkeys e.1).1 (Entries.mem_keys_of_mem he))
    exact ⟨b, hfind, hvalues e.1 e.2 b ((Entries.find?_eq_some_iff ha).2 he) hfind⟩

section

variable {v : Value}

theorem equal_null : null.equal v = true ↔ v = null := by
  cases v <;> simp [equal]

theorem equal_bool {b : Bool} : (bool b).equal v = true ↔ v = bool b := by
  cases v with
  | bool c => simpa [equal] using eq_comm
  | _ => simp [equal]

theorem equal_string {s : String} : (string s).equal v = true ↔ v = string s := by
  cases v with
  | string t => simpa [equal] using eq_comm
  | _ => simp [equal]

theorem equal_hostFunction {f : HostFunction} :
    (hostFunction f).equal v = true ↔ ∃ g, v = hostFunction g ∧ g.id = f.id := by
  cases v with
  | hostFunction g => simpa [equal] using eq_comm
  | _ => simp [equal]

theorem equal_closure {f : Closure} :
    (closure f).equal v = true ↔ ∃ g, v = closure g ∧ g.frame = f.frame ∧ g.id = f.id := by
  cases v with
  | closure g =>
    rw [equal, sameClosure, Bool.and_eq_true, beq_iff_eq, beq_iff_eq]
    exact ⟨fun h => ⟨g, rfl, h.1.symm, h.2.symm⟩, fun ⟨_, hg, h⟩ =>
      closure.inj hg ▸ ⟨h.1.symm, h.2.symm⟩⟩
  | _ => simp [equal]

theorem equal_object {id : Nat} {typeName : String} {members : List (String × Value)}
    {shown : Option String} :
    (object id typeName members shown).equal v = true ↔
      ∃ typeName' members' shown', v = object id typeName' members' shown' := by
  cases v with
  | object other => simpa [equal] using eq_comm
  | _ => simp [equal]

end

open Float.Model in
theorem unpacked_compare_eq_symm {a b : UnpackedFloat} (h : a.compare b = some .eq) :
    b.compare a = some .eq := by
  unfold UnpackedFloat.compare at h ⊢
  split at h <;> simp_all
  rename_i s t
  cases s <;> cases t <;> simp_all [compare]

theorem float_beq_comm (x y : Float) : (x == y) = (y == x) := by
  have hsymm (x y : Float) (h : (x == y) = true) : (y == x) = true := by
    change (_ == some Ordering.eq) = true at h ⊢
    exact beq_iff_eq.2 (unpacked_compare_eq_symm (beq_iff_eq.1 h))
  exact Bool.eq_iff_iff.2 ⟨hsymm x y, hsymm y x⟩

theorem equal_symm {u v : Value} (hu : u.Keyed) (hv : v.Keyed) (h : u.equal v = true) :
    v.equal u = true := by
  induction u using induction_parts generalizing v with
  | array as ih =>
    cases v with
    | array bs =>
      rw [equal_array, List.forall₂_iff_get] at h ⊢
      obtain ⟨hlen, hget⟩ := h
      refine ⟨hlen.symm, fun i hi hi' => ?_⟩
      exact ih _ (List.get_mem ..) (keyed_array.1 hu _ (List.get_mem ..))
        (keyed_array.1 hv _ (List.get_mem ..)) (hget i hi' hi)
    | _ => cases h
  | map as ih =>
    cases v with
    | map bs =>
      obtain ⟨hua, huvals⟩ := keyed_map.1 hu
      obtain ⟨hvb, hvvals⟩ := keyed_map.1 hv
      rw [equal_map hua hvb] at h
      refine (equal_map hvb hua).2 ⟨fun k => (h.1 k).symm, fun k b a hb ha => ?_⟩
      have hma := Entries.mem_of_find? ha
      exact ih _ hma (huvals _ hma) (hvvals _ (Entries.mem_of_find? hb)) (h.2 k a b ha hb)
    | _ => cases h
  | int i =>
    cases v with
    | int j => exact beq_iff_eq.2 (beq_iff_eq.1 h).symm
    | float y => exact (float_beq_comm ..).trans h
    | _ => cases h
  | float x =>
    cases v with
    | int j | float y => exact (float_beq_comm ..).trans h
    | _ => cases h
  | null =>
    obtain rfl := equal_null.1 h
    exact h
  | bool b =>
    obtain rfl := equal_bool.1 h
    exact h
  | string s =>
    obtain rfl := equal_string.1 h
    exact h
  | hostFunction f =>
    obtain ⟨g, rfl, hid⟩ := equal_hostFunction.1 h
    exact equal_hostFunction.2 ⟨f, rfl, hid.symm⟩
  | closure f =>
    obtain ⟨g, rfl, hframe, hid⟩ := equal_closure.1 h
    exact equal_closure.2 ⟨f, rfl, hframe.symm, hid.symm⟩
  | object id typeName members shown =>
    obtain ⟨_, _, _, rfl⟩ := equal_object.1 h
    exact equal_object.2 ⟨typeName, members, shown, rfl⟩

theorem equal_comm {u v : Value} (hu : u.Keyed) (hv : v.Keyed) : u.equal v = v.equal u :=
  Bool.eq_iff_iff.2 ⟨equal_symm hu hv, equal_symm hv hu⟩

theorem equal_self {v : Value} (hv : v.Keyed) (hf : v.Floatless) : v.equal v = true := by
  induction v using induction_parts with
  | array items ih =>
    refine equal_array.2 (List.forall₂_same.2 fun v hmem => ?_)
    exact ih v hmem (keyed_array.1 hv v hmem) (floatless_array.1 hf v hmem)
  | map entries ih =>
    obtain ⟨hkeys, hvalues⟩ := keyed_map.1 hv
    refine (equal_map hkeys hkeys).2 ⟨fun _ => .rfl, fun k a b ha hb => ?_⟩
    obtain rfl := Option.some.inj (ha.symm.trans hb)
    have hmem := Entries.mem_of_find? ha
    exact ih _ hmem (hvalues _ hmem) (floatless_map.1 hf _ hmem)
  | float x => exact hf.elim
  | _ => simp [equal, sameClosure]

/-- The value in the middle must be without floats: two integers can be equal to one float. -/
theorem equal_trans {u v w : Value} (hu : u.Keyed) (hv : v.Keyed) (hw : w.Keyed)
    (huf : u.Floatless) (hvf : v.Floatless) (h : u.equal v = true) (h' : v.equal w = true) :
    u.equal w = true := by
  induction u using induction_parts generalizing v w with
  | array as ih =>
    cases v with
    | array bs =>
      cases w with
      | array cs =>
        rw [equal_array, List.forall₂_iff_get] at h h' ⊢
        refine ⟨h.1.trans h'.1, fun i hi hi' => ?_⟩
        have hib : i < bs.length := h.1 ▸ hi
        exact ih _ (List.get_mem ..) (keyed_array.1 hu _ (List.get_mem ..))
          (keyed_array.1 hv _ (List.get_mem ..)) (keyed_array.1 hw _ (List.get_mem ..))
          (floatless_array.1 huf _ (List.get_mem ..)) (floatless_array.1 hvf _ (List.get_mem ..))
          (h.2 i hi hib) (h'.2 i hib hi')
      | _ => cases h'
    | _ => cases h
  | map as ih =>
    cases v with
    | map bs =>
      cases w with
      | map cs =>
        obtain ⟨hua, huvals⟩ := keyed_map.1 hu
        obtain ⟨hvb, hvvals⟩ := keyed_map.1 hv
        obtain ⟨hwc, hwvals⟩ := keyed_map.1 hw
        rw [equal_map hua hvb] at h
        rw [equal_map hvb hwc] at h'
        refine (equal_map hua hwc).2 ⟨fun k => (h.1 k).trans (h'.1 k), fun k a c ha hc => ?_⟩
        have hkey := (h.1 k).1 (Entries.exists_find?_iff.1 ⟨a, ha⟩)
        obtain ⟨b, hb⟩ := Entries.exists_find?_iff.2 hkey
        have hma := Entries.mem_of_find? ha
        have hmb := Entries.mem_of_find? hb
        exact ih _ hma (huvals _ hma) (hvvals _ hmb) (hwvals _ (Entries.mem_of_find? hc))
          (floatless_map.1 huf _ hma) (floatless_map.1 hvf _ hmb) (h.2 k a b ha hb)
          (h'.2 k b c hb hc)
      | _ => cases h'
    | _ => cases h
  | int i =>
    cases v with
    | int j => rwa [beq_iff_eq.1 h]
    | float y => exact hvf.elim
    | _ => cases h
  | float x => exact huf.elim
  | null => rwa [equal_null.1 h] at h'
  | bool b => rwa [equal_bool.1 h] at h'
  | string s => rwa [equal_string.1 h] at h'
  | hostFunction f =>
    obtain ⟨g, rfl, hg⟩ := equal_hostFunction.1 h
    obtain ⟨k, rfl, hk⟩ := equal_hostFunction.1 h'
    exact equal_hostFunction.2 ⟨k, rfl, hk.trans hg⟩
  | closure f =>
    obtain ⟨g, rfl, hgframe, hgid⟩ := equal_closure.1 h
    obtain ⟨k, rfl, hkframe, hkid⟩ := equal_closure.1 h'
    exact equal_closure.2 ⟨k, rfl, hkframe.trans hgframe, hkid.trans hgid⟩
  | object id typeName members shown =>
    obtain ⟨_, _, _, rfl⟩ := equal_object.1 h
    obtain ⟨_, _, _, rfl⟩ := equal_object.1 h'
    exact equal_object.2 ⟨_, _, _, rfl⟩

/-- Among values without floats, equality is an equivalence relation. Arrays are equal item by item,
maps are if they have the same keys and equal values under each, and functions and objects of the
host are equal to themselves only. -/
theorem equal_equivalence_on_floatless :
    Equivalence (fun u v : {v : Value // v.Keyed ∧ v.Floatless} => u.1.equal v.1 = true) ∧
    (∀ as bs, (array as).equal (array bs) = true ↔
      List.Forall₂ (fun a b => a.equal b = true) as bs) ∧
    (∀ as bs, (map as).Keyed → (map bs).Keyed → ((map as).equal (map bs) = true ↔
      (∀ k, k ∈ Entries.keys as ↔ k ∈ Entries.keys bs) ∧
        ∀ k a b, Entries.find? k as = some a → Entries.find? k bs = some b → a.equal b = true)) ∧
    (∀ f v, (hostFunction f).equal v = true ↔ ∃ g, v = hostFunction g ∧ g.id = f.id) ∧
    (∀ f v, (closure f).equal v = true ↔
      ∃ g, v = closure g ∧ g.frame = f.frame ∧ g.id = f.id) ∧
    ∀ id typeName members shown v, (object id typeName members shown).equal v = true ↔
      ∃ typeName' members' shown', v = object id typeName' members' shown' := by
  refine ⟨⟨fun v => equal_self v.2.1 v.2.2, fun {u v} => equal_symm u.2.1 v.2.1, ?_⟩,
    fun _ _ => equal_array, fun _ _ ha hb => equal_map (keyed_map.1 ha).1 (keyed_map.1 hb).1,
    fun _ _ => equal_hostFunction, fun _ _ => equal_closure, fun _ _ _ _ _ => equal_object⟩
  exact fun {u v w} => equal_trans u.2.1 v.2.1 w.2.1 u.2.2 v.2.2

theorem equal_map_in_other_order :
    let items : Value := .array [.int 1, .map [("key", .null)]]
    let as := [("a", items), ("b", .bool true)]
    let bs := [("b", .bool true), ("a", items)]
    ((map as).Keyed ∧ (map as).Floatless) ∧ ((map bs).Keyed ∧ (map bs).Floatless) ∧
      (map as).equal (map bs) = true ∧ (map bs).equal (map as) = true ∧
      ∀ k, k ∈ Entries.keys as ↔ k ∈ Entries.keys bs := by
  intro items as bs
  have ha : (map as).Keyed ∧ (map as).Floatless := by
    simp [as, items, Entries.keys, Keyed, KeyedItems, KeyedUnder, Floatless, FloatlessItems,
      FloatlessUnder]
  have hb : (map bs).Keyed ∧ (map bs).Floatless := by
    simp [bs, items, Entries.keys, Keyed, KeyedItems, KeyedUnder, Floatless, FloatlessItems,
      FloatlessUnder]
  obtain ⟨hequivalence, -, hmaps, -⟩ := equal_equivalence_on_floatless
  have hequal : (map as).equal (map bs) = true := by decide
  have hback := hequivalence.symm (x := ⟨map as, ha⟩) (y := ⟨map bs, hb⟩) hequal
  exact ⟨ha, hb, hequal, hback, ((hmaps as bs ha.1 hb.1).1 hequal).1⟩

end Value
end TextTemplate
