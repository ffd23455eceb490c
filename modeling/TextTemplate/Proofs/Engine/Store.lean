import Mathlib.Data.List.Basic
import Mathlib.Data.List.Induction
import TextTemplate.Library

/-! What a template store holds. Its keys are a slash and segments with single separators between
them, and a name is accepted if its canonical form is such a key. Under each key stands what was
last added under any name of it, told by the history of the store alone. -/

namespace TextTemplate.TemplateStore

inductive Separator where
  | dot
  | slash
  deriving Repr, DecidableEq

def Separator.char : Separator → Char
  | .dot => '.'
  | .slash => '/'

def InSegment (c : Char) : Prop :=
  'A' ≤ c ∧ c ≤ 'Z' ∨ 'a' ≤ c ∧ c ≤ 'z' ∨ '0' ≤ c ∧ c ≤ '9' ∨ c = '_' ∨ c = '-'

structure Segment where
  chars : List Char
  ne_nil : chars ≠ []
  inSegment : ∀ c ∈ chars, InSegment c

/-- A slash, a segment, and more segments with a separator before each. -/
structure Key where
  first : Segment
  more : List (Separator × Segment)

def joined (more : List (Separator × Segment)) : List Char :=
  more.flatMap fun p => p.1.char :: p.2.chars

def Key.text (k : Key) : String :=
  String.ofList ('/' :: (k.first.chars ++ joined k.more))

section Keys

variable {inName : Bool} {c : Char} {part cs : List Char}

theorem isNameChar_iff : isNameChar c = true ↔ InSegment c := by
  have hupper : c.isUpper = decide ('A' ≤ c ∧ c ≤ 'Z') := rfl
  have hlower : c.isLower = (decide ('a' ≤ c) && decide (c ≤ 'z')) := rfl
  have hdigit : c.isDigit = (decide ('0' ≤ c) && decide (c ≤ '9')) := rfl
  have hname : isNameChar c = (c.isUpper || c.isLower || c.isDigit || c == '_' || c == '-') := rfl
  rw [hname, hupper, hlower, hdigit]
  simp only [Bool.or_eq_true, Bool.and_eq_true, decide_eq_true_eq, beq_iff_eq, or_assoc,
    InSegment]

theorem isNameList_segment (h : ∀ c ∈ part, InSegment c) (cs : List Char) :
    isNameList inName (part ++ cs) = isNameList (inName || !part.isEmpty) cs := by
  induction part generalizing inName with
  | nil => simp
  | cons c part ih =>
    rw [List.forall_mem_cons] at h
    rw [List.cons_append, isNameList, if_pos (isNameChar_iff.2 h.1), ih h.2]
    simp

theorem isNameChar_separator (s : Separator) : isNameChar s.char = false := by
  cases s <;> rfl

theorem isNameList_separator (s : Separator) (cs : List Char) :
    isNameList inName (s.char :: cs) = (inName && isNameList false cs) := by
  rw [isNameList, isNameChar_separator]
  cases s <;> simp [Separator.char]

theorem isNameList_joined (more : List (Separator × Segment)) :
    isNameList true (joined more) = true := by
  induction more with
  | nil => rfl
  | cons p more ih =>
    have hne : p.2.chars.isEmpty = false := by simpa using p.2.ne_nil
    rw [joined, List.flatMap_cons, List.cons_append, isNameList_separator, Bool.true_and,
      isNameList_segment p.2.inSegment, hne]
    exact ih

theorem exists_joined_of_isNameList (h : isNameList inName cs = true) :
    ∃ part more, (∀ c ∈ part, InSegment c) ∧ (inName = false → part ≠ []) ∧
      cs = part ++ joined more := by
  induction cs generalizing inName with
  | nil =>
    have hname : inName = true := h
    exact ⟨[], [], by simp, by simp [hname], rfl⟩
  | cons c cs ih =>
    rw [isNameList] at h
    split at h
    · rename_i hc
      obtain ⟨part, more, hpart, -, rfl⟩ := ih h
      exact ⟨c :: part, more, List.forall_mem_cons.2 ⟨isNameChar_iff.1 hc, hpart⟩, by simp, rfl⟩
    · simp only [Bool.and_eq_true, Bool.or_eq_true, beq_iff_eq] at h
      obtain ⟨⟨hname, hc⟩, hlater⟩ := h
      obtain ⟨part, more, hpart, hne, rfl⟩ := ih hlater
      obtain ⟨s, rfl⟩ : ∃ s : Separator, s.char = c := by
        rcases hc with rfl | rfl
        · exact ⟨.dot, rfl⟩
        · exact ⟨.slash, rfl⟩
      exact ⟨[], (s, ⟨part, hne rfl, hpart⟩) :: more, by simp, by simp [hname], rfl⟩

theorem isKey_iff {s : String} : isKey s = true ↔ ∃ k : Key, k.text = s := by
  constructor
  · intro h
    unfold isKey at h
    split at h
    · rename_i cs hs
      obtain ⟨part, more, hpart, hne, rfl⟩ := exists_joined_of_isNameList h
      exact ⟨⟨⟨part, hne rfl, hpart⟩, more⟩, by rw [Key.text, ← hs, String.ofList_toList]⟩
    · cases h
  · rintro ⟨k, rfl⟩
    have hne : k.first.chars.isEmpty = false := by simpa using k.first.ne_nil
    unfold isKey Key.text
    rw [String.toList_ofList]
    change isNameList false (k.first.chars ++ joined k.more) = true
    rw [isNameList_segment k.first.inSegment, hne]
    exact isNameList_joined k.more

theorem not_infix_of_isNameList (h : isNameList inName cs = true) (a b : Separator) :
    ¬ [a.char, b.char] <:+: cs := by
  induction cs generalizing inName with
  | nil => simp
  | cons c cs ih =>
    rw [List.infix_cons_iff, not_or]
    refine ⟨?_, ?_⟩
    · rintro ⟨rest, heq⟩
      obtain ⟨rfl, rfl⟩ := List.cons.inj heq
      change isNameList inName (a.char :: b.char :: rest) = true at h
      rw [isNameList_separator, isNameList_separator] at h
      simp at h
    · rw [isNameList] at h
      split at h
      · exact ih h
      · exact ih (Bool.and_eq_true_iff.1 h).2

theorem getLast?_of_isNameList (h : isNameList inName cs = true) (a : Separator) :
    cs.getLast? ≠ some a.char := by
  intro hlast
  obtain ⟨front, rfl⟩ := List.getLast?_eq_some_iff.1 hlast
  induction front generalizing inName with
  | nil =>
    rw [List.nil_append, isNameList_separator] at h
    simp [isNameList] at h
  | cons c front ih =>
    rw [List.cons_append, isNameList] at h
    split at h
    · exact ih h (by simp)
    · exact ih (Bool.and_eq_true_iff.1 h).2 (by simp)

theorem Key.separated (k : Key) : (∀ a b : Separator, ¬ [a.char, b.char] <:+: k.text.toList) ∧
    ∀ a : Separator, k.text.toList.getLast? ≠ some a.char := by
  have hkey : isKey k.text = true := isKey_iff.2 ⟨k, rfl⟩
  unfold isKey at hkey
  split at hkey
  · rename_i cs hcs
    -- the slash in front is a separator after which a segment begins
    have hslash : isNameList true (Separator.slash.char :: cs) = true := by
      rwa [isNameList_separator]
    rw [hcs]
    exact ⟨not_infix_of_isNameList hslash, getLast?_of_isNameList hslash⟩
  · cases hkey

end Keys

theorem head?_canonical (name : String) : (canonical name).toList.head? = some '/' := by
  unfold canonical
  split
  · assumption
  · simp

theorem canonical_canonical (name : String) : canonical (canonical name) = canonical name :=
  if_pos (head?_canonical name)

inductive Operation where
  | add (name source : String)
  | remove (name : String)
  | clear
  deriving Repr, DecidableEq

def perform (o : Operation) (s : TemplateStore) : Except Error Unit × TemplateStore :=
  match o with
  | .add name source =>
    match s.add name source with
    | .ok s' => (.ok (), s')
    | .error e => (.error e, s)
  | .remove name => (.ok (), s.remove name)
  | .clear => (.ok (), empty)

def after (os : List Operation) : TemplateStore :=
  os.foldl (fun s o => (s.perform o).2) empty

def Operation.concerns (key : String) : Operation → Prop
  | .add name _ | .remove name => canonical name = key
  | .clear => True

instance (key : String) (o : Operation) : Decidable (o.concerns key) :=
  match o with
  | .add name _ | .remove name => inferInstanceAs (Decidable (canonical name = key))
  | .clear => isTrue trivial

/-- A source was added under a key, and since then nothing has been done about that key. -/
def Added (os : List Operation) (key source : String) : Prop :=
  (∃ k : Key, k.text = key) ∧ ∃ before name later, os = before ++ .add name source :: later ∧
    canonical name = key ∧ ∀ o ∈ later, ¬ o.concerns key

variable {os : List Operation} {o : Operation} {s : TemplateStore} {key source : String}

theorem perform_add_of_isKey {name : String} (h : isKey (canonical name) = true) :
    s.perform (.add name source) =
      (.ok (), ⟨Entries.insert (canonical name) source s.templates⟩) := by
  simp only [perform, add, h, if_true]

theorem perform_add_of_not_isKey {name : String} (h : isKey (canonical name) = false) :
    s.perform (.add name source) = (.error (.resolution (.invalidName name)), s) := by
  simp only [perform, add, h, Bool.false_eq_true, if_false]

theorem after_concat (os : List Operation) (o : Operation) :
    after (os ++ [o]) = ((after os).perform o).2 := by
  rw [after, List.foldl_append]
  rfl

theorem added_concat : Added (os ++ [o]) key source ↔
    (∃ k : Key, k.text = key) ∧ (∃ name, o = .add name source ∧ canonical name = key) ∨
      Added os key source ∧ ¬ o.concerns key := by
  constructor
  · rintro ⟨hkey, before, name, later, hos, hname, hlater⟩
    rcases List.eq_nil_or_concat later with rfl | ⟨later, o', rfl⟩
    · obtain ⟨-, ho⟩ := List.append_inj' hos rfl
      exact .inl ⟨hkey, name, List.singleton_inj.1 ho, hname⟩
    · rw [List.concat_eq_append, ← List.cons_append, ← List.append_assoc] at hos
      obtain ⟨rfl, ho⟩ := List.append_inj' hos rfl
      obtain rfl := List.singleton_inj.1 ho
      rw [List.concat_eq_append, List.forall_mem_append] at hlater
      exact .inr ⟨⟨hkey, before, name, later, rfl, hname, hlater.1⟩,
        hlater.2 o List.mem_cons_self⟩
  · rintro (⟨hkey, name, rfl, hname⟩ | ⟨⟨hkey, before, name, later, rfl, hname, hlater⟩, ho⟩)
    · exact ⟨hkey, os, name, [], rfl, hname, by simp⟩
    · refine ⟨hkey, before, name, later ++ [o], by simp, hname, ?_⟩
      rw [List.forall_mem_append]
      exact ⟨hlater, by simpa using ho⟩

theorem find?_perform
    (hkeys : Entries.find? key s.templates = some source → ∃ k : Key, k.text = key)
    (o : Operation) : Entries.find? key (s.perform o).2.templates = some source ↔
      (∃ k : Key, k.text = key) ∧ (∃ name, o = .add name source ∧ canonical name = key) ∨
        Entries.find? key s.templates = some source ∧ ¬ o.concerns key := by
  cases o with
  | clear => simp [perform, empty, Entries.find?, Operation.concerns]
  | remove name =>
    simp only [perform, remove, Entries.find?_erase, Operation.concerns]
    by_cases hname : canonical name = key <;> simp [hname]
  | add name new =>
    by_cases hname : canonical name = key
    · subst hname
      cases hkey : isKey (canonical name) with
      | true =>
        have hvalid : ∃ k : Key, k.text = canonical name := isKey_iff.1 hkey
        rw [perform_add_of_isKey hkey, Entries.find?_insert]
        simp [hvalid, Operation.concerns]
      | false =>
        have hinvalid : ¬ ∃ k : Key, k.text = canonical name := by
          rw [← isKey_iff, hkey]
          decide
        rw [perform_add_of_not_isKey hkey]
        simp [hinvalid, mt hkeys hinvalid]
    · -- what is added under another key, or refused, does not matter
      cases hkey : isKey (canonical name) with
      | true =>
        rw [perform_add_of_isKey hkey, Entries.find?_insert]
        simp [hname, Operation.concerns]
      | false =>
        rw [perform_add_of_not_isKey hkey]
        simp [hname, Operation.concerns]

theorem find?_after (os : List Operation) (key source : String) :
    Entries.find? key (after os).templates = some source ↔ Added os key source := by
  induction os using List.reverseRecOn with
  | nil => simp [after, empty, Entries.find?, Added]
  | append_singleton os o ih =>
    have hkeys (h : Entries.find? key (after os).templates = some source) :
        ∃ k : Key, k.text = key := (ih.1 h).1
    rw [after_concat, added_concat, find?_perform hkeys, ih]

theorem nodup_keys_after (os : List Operation) : (Entries.keys (after os).templates).Nodup := by
  induction os using List.reverseRecOn with
  | nil => exact .nil
  | append_singleton os o ih =>
    rw [after_concat]
    cases o with
    | clear => exact .nil
    | remove name =>
      rw [perform, remove, Entries.keys_erase]
      exact ih.filter _
    | add name source =>
      cases hkey : isKey (canonical name) with
      | true =>
        rw [perform_add_of_isKey hkey]
        exact Entries.nodup_keys_insert ih
      | false =>
        rw [perform_add_of_not_isKey hkey]
        exact ih

theorem resolve_eq_ok_iff {name : String} {r : Resource} : s.resolve name = .ok r ↔
    r.path = canonical name ∧ Entries.find? (canonical name) s.templates = some r.source := by
  unfold resolve
  dsimp only
  split
  · rename_i source hsource
    cases r
    simp [hsource, eq_comm]
  · rename_i hnone
    simp [hnone]

theorem resolve_eq_error_iff {name : String} {e : Error} : s.resolve name = .error e ↔
    e = .templateNotFound (canonical name) ∧
      Entries.find? (canonical name) s.templates = none := by
  unfold resolve
  dsimp only
  split
  · rename_i source hsource
    simp [hsource]
  · rename_i hnone
    simp [hnone, eq_comm]

/-- Whatever is done to a store, it maps keys of one form to sources. Templates are accepted under
the names whose canonical form is such a key, and otherwise the store is left as it was. A name is
resolved to what was last added under its key, with the key as a path that is resolved to the same,
or else the key is not found. -/
theorem store_maps_keys_to_last_added (os : List Operation) :
    let s := after os
    ((∀ key ∈ Entries.keys s.templates, ∃ k : Key, k.text = key) ∧
      (Entries.keys s.templates).Nodup ∧
      ∀ k : Key, (∀ a b : Separator, ¬ [a.char, b.char] <:+: k.text.toList) ∧
        ∀ a : Separator, k.text.toList.getLast? ≠ some a.char) ∧
    (∀ name source : String,
      ((s.perform (.add name source)).1 = .ok () ↔ ∃ k : Key, k.text = canonical name) ∧
      ((¬ ∃ k : Key, k.text = canonical name) →
        s.perform (.add name source) = (.error (.resolution (.invalidName name)), s))) ∧
    (∀ (name : String) (r : Resource), s.resolve name = .ok r ↔
      r.path = canonical name ∧ Added os (canonical name) r.source) ∧
    (∀ (name : String) (r : Resource), s.resolve name = .ok r → s.resolve r.path = .ok r) ∧
    ∀ (name : String) (e : Error), s.resolve name = .error e ↔
      e = .templateNotFound (canonical name) ∧ ¬ ∃ source, Added os (canonical name) source := by
  intro s
  refine ⟨⟨fun key hkey => ?_, nodup_keys_after os, Key.separated⟩, fun name source => ?_,
    fun name r => ?_, fun name r hr => ?_, fun name e => ?_⟩
  · obtain ⟨source, hsource⟩ := Entries.exists_find?_iff.2 hkey
    exact ((find?_after os key source).1 hsource).1
  · rw [← isKey_iff]
    cases hkey : isKey (canonical name) with
    | true => simp [perform_add_of_isKey hkey]
    | false => simp [perform_add_of_not_isKey hkey]
  · rw [resolve_eq_ok_iff, find?_after]
  · rw [resolve_eq_ok_iff] at hr ⊢
    rw [hr.1, canonical_canonical]
    exact ⟨rfl, hr.2⟩
  · rw [resolve_eq_error_iff, Option.eq_none_iff_forall_ne_some]
    simp only [ne_eq, find?_after, not_exists, s]

theorem layout_under_two_names :
    let os : List Operation := [.add "layout" "old", .add "/layout" "new", .add "a//b" "x",
      .add "layout\n" "x", .remove "page"]
    let s := after os
    ("/layout" ∈ Entries.keys s.templates ∧ ∃ k : Key, k.text = "/layout") ∧
      ((¬ ∃ k : Key, k.text = canonical "a//b") ∧
        s.perform (.add "a//b" "x") = (.error (.resolution (.invalidName "a//b")), s)) ∧
      s.resolve "layout" = .ok ⟨"/layout", "new"⟩ ∧ s.resolve "/layout" = .ok ⟨"/layout", "new"⟩ ∧
      s.resolve "page" = .error (.templateNotFound "/page") ∧
      ¬ ∃ source, Added os (canonical "page") source := by
  intro os s
  obtain ⟨⟨hkeys, -⟩, hadd, hresolve, hagain, herror⟩ := store_maps_keys_to_last_added os
  have hstored : "/layout" ∈ Entries.keys s.templates := by decide +kernel
  have hrefused : ¬ ∃ k : Key, k.text = canonical "a//b" := by
    rw [← isKey_iff]
    decide +kernel
  have hadded : Added os (canonical "layout") "new" :=
    ⟨isKey_iff.1 (by decide +kernel), [.add "layout" "old"], "/layout",
      [.add "a//b" "x", .add "layout\n" "x", .remove "page"], rfl, by decide +kernel,
      by decide +kernel⟩
  have hlayout : s.resolve "layout" = .ok ⟨"/layout", "new"⟩ :=
    (hresolve "layout" ⟨"/layout", "new"⟩).2 ⟨by decide +kernel, hadded⟩
  have hpage : s.resolve "page" = .error (.templateNotFound "/page") := by decide +kernel
  exact ⟨⟨hstored, hkeys _ hstored⟩, ⟨hrefused, (hadd "a//b" "x").2 hrefused⟩, hlayout,
    hagain "layout" _ hlayout, hpage, ((herror "page" _).1 hpage).2⟩

end TextTemplate.TemplateStore
