import Mathlib.Data.Finset.Card
import Mathlib.Data.List.Induction
import TextTemplate.Cache

/-! Which keys a cache holds, told by when they were last used. The order of its entries stands
beside a record of times: a key is live from when it is set until it is removed, evicted or cleared,
and held are the live keys used last, as many as the cache has room for. -/

namespace TextTemplate

namespace Cache

variable {α : Type}

inductive Operation (α : Type) where
  | set (key : String) (v : α)
  | get (key : String)
  | remove (key : String)
  | clear
  | contains (key : String)

inductive Answer (α : Type) where
  | done
  | found (v : Option α)
  | held (b : Bool)

def perform (o : Operation α) (c : Cache α) : Answer α × Cache α :=
  match o with
  | .set k v => (.done, c.insert k v)
  | .get k => (.found (c.find? k), c.touch k)
  | .remove k => (.done, c.erase k)
  | .clear => (.done, c.clear)
  | .contains k => (.held (c.contains k), c)

def after (c : Cache α) (os : List (Operation α)) : Cache α :=
  os.foldl (fun c o => (c.perform o).2) c

def Operation.setsAt (key : String) : Operation α → Option α
  | .set k v => if k = key then some v else Option.none
  | _ => Option.none

def lastSet (key : String) (os : List (Operation α)) : Option α :=
  os.reverse.findSome? (Operation.setsAt key)

theorem lastSet_concat (key : String) (os : List (Operation α)) (o : Operation α) :
    lastSet key (os ++ [o]) = (o.setsAt key).or (lastSet key os) := by
  simp only [lastSet, List.reverse_append, List.reverse_singleton, List.singleton_append,
    List.findSome?_cons]
  cases o.setsAt key <;> rfl

end Cache

open Finset

/-- The `n` of some keys that were used last. -/
def mostRecent (lastUse : String → ℕ) (n : ℕ) (keys : Finset String) : Finset String :=
  {k ∈ keys | #{j ∈ keys | lastUse k < lastUse j} < n}

structure Usage where
  live : Finset String
  lastUse : String → ℕ
  now : ℕ

namespace Usage

variable {α : Type}

def start : Usage := ⟨∅, fun _ => 0, 0⟩

def held (n : ℕ) (u : Usage) : Finset String :=
  mostRecent u.lastUse n u.live

/-- Whether an operation uses a key, where some keys are held: to find a key is to use it, to miss
it or only to ask for it is not. -/
def uses (held : Finset String) (key : String) : Cache.Operation α → Prop
  | .set k _ => k = key
  | .get k => k = key ∧ key ∈ held
  | .remove _ | .clear | .contains _ => False

instance (held : Finset String) (key : String) (o : Cache.Operation α) :
    Decidable (uses held key o) :=
  match o with
  | .set k _ => inferInstanceAs (Decidable (k = key))
  | .get k => inferInstanceAs (Decidable (k = key ∧ key ∈ held))
  | .remove _ | .clear | .contains _ => isFalse id

def leaves (held : Finset String) : Cache.Operation α → Finset String
  | .set k _ => insert k held
  | .remove k => held.erase k
  | .clear => ∅
  | .get _ | .contains _ => held

/-- Live keys beyond the `n` most recently used ones have been evicted. -/
def next (n : ℕ) (u : Usage) (o : Cache.Operation α) : Usage where
  live := leaves (u.held n) o
  lastUse k := if uses (u.held n) k o then u.now else u.lastUse k
  now := u.now + 1

def ofRun (n : ℕ) (os : List (Cache.Operation α)) : Usage :=
  os.foldl (next n) start

theorem ofRun_concat (n : ℕ) (os : List (Cache.Operation α)) (o : Cache.Operation α) :
    ofRun n (os ++ [o]) = (ofRun n os).next n o := by
  rw [ofRun, List.foldl_append]
  rfl

/-- The live keys in order, the most recently used first. -/
structure Ranks (u : Usage) (order : List String) : Prop where
  live : u.live = order.toFinset
  sorted : order.Pairwise fun j k => u.lastUse k < u.lastUse j
  past : ∀ k ∈ order, u.lastUse k < u.now

variable {u : Usage} {order : List String} {n : ℕ}

theorem mem_mostRecent {lastUse : String → ℕ} {keys : Finset String} {k : String} :
    k ∈ mostRecent lastUse n keys ↔ k ∈ keys ∧ #{j ∈ keys | lastUse k < lastUse j} < n :=
  mem_filter

theorem mostRecent_toFinset {lastUse : String → ℕ} (n : ℕ)
    (h : order.Pairwise fun j k => lastUse k < lastUse j) :
    mostRecent lastUse n order.toFinset = (order.take n).toFinset := by
  induction order generalizing n with
  | nil => simp [mostRecent]
  | cons k ks ih =>
    rw [List.pairwise_cons] at h
    have hlater (j : String) (hj : j ∈ ks.toFinset) : lastUse j < lastUse k :=
      h.1 j (List.mem_toFinset.1 hj)
    have hk : k ∉ ks.toFinset := fun hmem => (hlater k hmem).false
    cases n with
    | zero => simp [mostRecent]
    | succ n =>
      ext j
      rw [List.take_succ_cons, List.toFinset_cons, List.toFinset_cons, mem_insert, ← ih n h.2,
        mem_mostRecent, mem_mostRecent, mem_insert, filter_insert]
      by_cases hj : j = k
      · subst hj
        have hnone : {i ∈ ks.toFinset | lastUse j < lastUse i} = ∅ :=
          filter_false_of_mem fun i hi => (hlater i hi).asymm
        simp [hnone]
      · simp only [hj, false_or]
        refine and_congr_right fun hmem => ?_
        rw [if_pos (hlater j hmem), card_insert_of_notMem (by simp [hk])]
        exact Nat.succ_lt_succ_iff

def reorder (o : Cache.Operation α) (kept : List String) : List String :=
  match o with
  | .set k _ => k :: kept.filter (· ≠ k)
  | .get k => if k ∈ kept then k :: kept.filter (· ≠ k) else kept
  | .remove k => kept.filter (· ≠ k)
  | .clear => []
  | .contains _ => kept

theorem mem_reorder {o : Cache.Operation α} {kept : List String} {k : String} :
    k ∈ reorder o kept ↔ k ∈ leaves kept.toFinset o := by
  cases o with
  | set j v => by_cases h : k = j <;> simp [reorder, leaves, h]
  | get j =>
    by_cases hj : j ∈ kept
    · by_cases h : k = j <;> simp [reorder, leaves, h, hj]
    · simp [reorder, leaves, hj]
  | remove j => simp [reorder, leaves, and_comm]
  | clear => simp [reorder, leaves]
  | contains j => simp [reorder, leaves]

theorem length_reorder_le (o : Cache.Operation α) (kept : List String) :
    (reorder o kept).length ≤ kept.length + 1 := by
  have hfilter (k : String) := kept.length_filter_le (· ≠ k)
  cases o with
  | set k v => exact Nat.succ_le_succ (hfilter k)
  | get k =>
    rw [reorder]
    split
    · exact Nat.succ_le_succ (hfilter k)
    · exact Nat.le_succ _
  | remove k => exact (hfilter k).trans (Nat.le_succ _)
  | clear => exact Nat.zero_le _
  | contains k => exact Nat.le_succ _

theorem mem_kept_of_mem_reorder {o : Cache.Operation α} {kept : List String} {k : String}
    (hk : k ∈ reorder o kept) (huses : ¬ uses kept.toFinset k o) : k ∈ kept := by
  cases o with
  | set j v =>
    have hne : k ≠ j := fun h => huses h.symm
    simpa [reorder, hne] using hk
  | get j =>
    by_cases hj : j ∈ kept
    · have hne : k ≠ j := fun h => huses ⟨h.symm, List.mem_toFinset.2 (h ▸ hj)⟩
      simpa [reorder, hj, hne] using hk
    · simpa [reorder, hj] using hk
  | remove j => exact List.mem_of_mem_filter hk
  | clear => cases hk
  | contains j => exact hk

theorem sorted_front {lastUse lastUse' : String → ℕ} {kept : List String} {k : String}
    (h : kept.Pairwise fun i j => lastUse j < lastUse i)
    (hlater : ∀ j ∈ kept, lastUse j < lastUse' k)
    (hother : ∀ j, j ≠ k → lastUse' j = lastUse j) :
    (k :: kept.filter (· ≠ k)).Pairwise fun i j => lastUse' j < lastUse' i := by
  have hne {j : String} (hj : j ∈ kept.filter (· ≠ k)) : j ≠ k := by
    simpa using (List.mem_filter.1 hj).2
  refine List.pairwise_cons.2 ⟨fun j hj => ?_, (h.filter _).imp_of_mem fun hi hj hlt => ?_⟩
  · rw [hother j (hne hj)]
    exact hlater j (List.mem_of_mem_filter hj)
  · rwa [hother _ (hne hi), hother _ (hne hj)]

namespace Ranks

theorem nodup (h : Ranks u order) : order.Nodup :=
  h.sorted.imp fun hlt heq => by simp [heq] at hlt

theorem held_eq (h : Ranks u order) (n : ℕ) : u.held n = (order.take n).toFinset := by
  rw [held, h.live, mostRecent_toFinset n h.sorted]

theorem sorted_next (h : Ranks u order) (n : ℕ) (o : Cache.Operation α) :
    (reorder o (order.take n)).Pairwise fun i j =>
      (u.next n o).lastUse j < (u.next n o).lastUse i := by
  have hsorted := h.sorted.sublist (List.take_sublist n order)
  have hpast (k : String) (hk : k ∈ order.take n) : u.lastUse k < u.now :=
    h.past k (List.mem_of_mem_take hk)
  simp only [Usage.next, h.held_eq]
  cases o with
  | set k v =>
    refine sorted_front hsorted (fun j hj => ?_) fun j hj => ?_
    · simpa [uses] using hpast j hj
    · simp [uses, hj.symm]
  | get k =>
    by_cases hk : k ∈ order.take n
    · rw [reorder, if_pos hk]
      refine sorted_front hsorted (fun j hj => ?_) fun j hj => ?_
      · simpa [uses, hk] using hpast j hj
      · simp [uses, hj.symm]
    · rw [reorder, if_neg hk]
      refine hsorted.imp_of_mem fun hi hj hlt => ?_
      have hmiss (j : String) (hj : j ∈ order.take n) : ¬ k = j := fun heq => hk (heq ▸ hj)
      simpa [uses, hmiss _ hi, hmiss _ hj] using hlt
  | remove k => simpa [uses, reorder] using hsorted.filter _
  | clear => exact .nil
  | contains k => simpa [uses, reorder] using hsorted

theorem next (h : Ranks u order) (n : ℕ) (o : Cache.Operation α) :
    Ranks (u.next n o) (reorder o (order.take n)) where
  live := by
    ext k
    rw [List.mem_toFinset, mem_reorder, ← h.held_eq]
    rfl
  sorted := h.sorted_next n o
  past k hk := by
    simp only [Usage.next, h.held_eq]
    split
    · exact Nat.lt_succ_self _
    · rename_i huses
      have hkept := List.mem_of_mem_take (mem_kept_of_mem_reorder hk huses)
      exact (h.past k hkept).trans (Nat.lt_succ_self _)

end Ranks
end Usage

namespace Cache

variable {α : Type} {c : Cache α} {n : ℕ} {os : List (Operation α)} {order : List String}

theorem keys_touch (k : String) (c : Cache α) : Entries.keys (c.touch k).entries =
    if k ∈ Entries.keys c.entries then k :: (Entries.keys c.entries).filter (· ≠ k)
    else Entries.keys c.entries := by
  rw [touch]
  split
  · rename_i v hv
    rw [if_pos (Entries.exists_find?_iff.1 ⟨v, hv⟩), ← Entries.keys_erase]
    rfl
  · rename_i hnone
    rw [if_neg]
    intro hk
    obtain ⟨v, hv⟩ := Entries.exists_find?_iff.2 hk
    cases hnone.symm.trans hv

theorem keys_perform (hroom : c.entries.length ≤ c.capacity) (o : Operation α) :
    Entries.keys (c.perform o).2.entries =
      (Usage.reorder o (Entries.keys c.entries)).take c.capacity := by
  have hkeys : (Entries.keys c.entries).length ≤ c.capacity := by simpa [Entries.keys] using hroom
  cases o with
  | set k v =>
    rw [perform, insert, Usage.reorder, ← Entries.keys_erase]
    exact List.map_take
  | get k =>
    rw [perform, keys_touch, Usage.reorder]
    split
    · rename_i hk
      have hless : ((Entries.keys c.entries).filter (· ≠ k)).length <
          (Entries.keys c.entries).length :=
        List.length_filter_lt_length_iff_exists.2 ⟨k, hk, by simp⟩
      exact (List.take_of_length_le (hless.trans_le hkeys)).symm
    · exact (List.take_of_length_le hkeys).symm
  | remove k =>
    rw [perform, erase, Entries.keys_erase, Usage.reorder]
    exact (List.take_of_length_le ((List.length_filter_le _ _).trans hkeys)).symm
  | clear => exact List.take_nil.symm
  | contains k => exact (List.take_of_length_le hkeys).symm

structure Follows (n : ℕ) (os : List (Operation α)) (u : Usage) (order : List String)
    (c : Cache α) : Prop where
  capacity : c.capacity = n
  ranks : u.Ranks order
  keys : Entries.keys c.entries = order.take n
  values : ∀ e ∈ c.entries, lastSet e.1 os = some e.2
  /-- No more than one key has to go at a time. -/
  length_le : order.length ≤ n + 1

theorem Follows.length_entries {u : Usage} (h : Follows n os u order c) :
    c.entries.length = min n order.length := by
  have hlength := congrArg List.length h.keys
  rwa [Entries.keys, List.length_map, List.length_take] at hlength

theorem values_perform (h : ∀ e ∈ c.entries, lastSet e.1 os = some e.2) (o : Operation α) :
    ∀ e ∈ (c.perform o).2.entries, lastSet e.1 (os ++ [o]) = some e.2 := by
  intro e he
  rw [lastSet_concat]
  cases o with
  | set k v =>
    rcases List.mem_cons.1 (List.mem_of_mem_take he) with rfl | he
    · simp [Operation.setsAt]
    · obtain ⟨he, hne⟩ := mem_erase he
      simp [Operation.setsAt, hne.symm, h e he]
  | get k => exact h e (mem_touch he)
  | remove k => exact h e (mem_erase he).1
  | clear => cases he
  | contains k => exact h e he

theorem Follows.perform {u : Usage} (h : Follows n os u order c) (o : Operation α) :
    Follows n (os ++ [o]) (u.next n o) (Usage.reorder o (order.take n)) (c.perform o).2 where
  capacity := by
    rw [← h.capacity]
    cases o with
    | get k =>
      rw [Cache.perform, touch]
      split <;> rfl
    | set k v | remove k | clear | contains k => rfl
  ranks := h.ranks.next n o
  keys := by
    have hroom : c.entries.length ≤ c.capacity := by
      rw [h.length_entries, h.capacity]
      exact Nat.min_le_left ..
    rw [keys_perform hroom, h.keys, h.capacity]
  values := values_perform h.values o
  length_le := (Usage.length_reorder_le o _).trans (Nat.succ_le_succ (List.length_take_le ..))

theorem exists_follows (c : Cache α) (hempty : c.entries = []) (os : List (Operation α)) :
    ∃ order, Follows c.capacity os (Usage.ofRun c.capacity os) order (c.after os) := by
  induction os using List.reverseRecOn with
  | nil => exact ⟨[], rfl, ⟨rfl, .nil, by simp⟩, by simp [after, hempty, Entries.keys],
      by simp [after, hempty], Nat.zero_le _⟩
  | append_singleton os o ih =>
    obtain ⟨order, h⟩ := ih
    rw [Usage.ofRun_concat, after, List.foldl_append]
    exact ⟨_, h.perform o⟩

theorem Follows.mem_keys_iff {u : Usage} (h : Follows n os u order c) {k : String} :
    k ∈ Entries.keys c.entries ↔ k ∈ u.held n := by
  rw [h.keys, h.ranks.held_eq, List.mem_toFinset]

theorem Follows.find? {u : Usage} (h : Follows n os u order c) (k : String) :
    c.find? k = if k ∈ u.held n then lastSet k os else Option.none := by
  split
  · rename_i hk
    obtain ⟨v, hv⟩ := Entries.exists_find?_iff.2 (h.mem_keys_iff.2 hk)
    rw [h.values _ (Entries.mem_of_find? hv)]
    exact hv
  · rename_i hk
    refine Option.eq_none_iff_forall_ne_some.2 fun v hv => hk ?_
    exact h.mem_keys_iff.1 (Entries.exists_find?_iff.1 ⟨v, hv⟩)

theorem Follows.contains {u : Usage} (h : Follows n os u order c) (k : String) :
    c.contains k = decide (k ∈ u.held n) := by
  rw [Bool.eq_iff_iff, decide_eq_true_eq, ← h.mem_keys_iff, ← Entries.exists_find?_iff]
  exact Option.isSome_iff_exists

theorem Follows.length_eq {u : Usage} (h : Follows n os u order c) :
    c.entries.length = min n #u.live := by
  rw [h.length_entries, h.ranks.live, List.toFinset_card_of_nodup h.ranks.nodup]

theorem Follows.lastUse_lt {u : Usage} (h : Follows n os u order c) {j k : String} (hk : k ∈ u.live)
    (hevicted : k ∉ u.held n) (hj : j ∈ u.live) (hne : j ≠ k) : u.lastUse k < u.lastUse j := by
  have hsorted := h.ranks.sorted
  rw [h.ranks.live, List.mem_toFinset, ← List.take_append_drop n order] at hk hj
  rw [← List.take_append_drop n order, List.pairwise_append] at hsorted
  rw [h.ranks.held_eq, List.mem_toFinset] at hevicted
  have hdropped := (List.mem_append.1 hk).resolve_left hevicted
  refine hsorted.2.2 j ((List.mem_append.1 hj).resolve_right fun hlate => hne ?_) k hdropped
  -- beyond the first `n` keys there is one at most
  have hlength : (order.drop n).length ≤ 1 := by
    rw [List.length_drop]
    exact Nat.sub_le_of_le_add (Nat.add_comm .. ▸ h.length_le)
  obtain ⟨i, hi⟩ : ∃ i, order.drop n = [i] := by
    refine List.length_eq_one_iff.1 (hlength.antisymm ?_)
    exact List.length_pos_of_mem hdropped
  rw [hi, List.mem_singleton] at hlate hdropped
  rw [hlate, hdropped]

/-- After any operations a cache holds the most recently used of the live keys, as many as it has
room for, each with the value last set under it. To set a key or to find it is a use, to miss it or
to ask whether it is there is none, and a key is evicted only if all other live keys were used
later. -/
theorem held_keys_most_recently_used (capacity : ℕ) (os : List (Operation α)) :
    let n := max capacity 1
    let c := (ofCapacity capacity).after os
    let u := Usage.ofRun n os
    (∀ k, k ∈ Entries.keys c.entries ↔ k ∈ u.held n) ∧ (Entries.keys c.entries).Nodup ∧
    c.entries.length = min n #u.live ∧
    (∀ k ∈ u.live, k ∉ u.held n → ∀ j ∈ u.live, j ≠ k → u.lastUse k < u.lastUse j) ∧
    (∀ k, (c.perform (.contains k)).1 = .held (decide (k ∈ u.held n))) ∧
    ∀ k, (c.perform (.get k)).1 = .found (if k ∈ u.held n then lastSet k os else Option.none) := by
  intro n c u
  obtain ⟨order, h⟩ := exists_follows (ofCapacity capacity) rfl os
  refine ⟨fun k => h.mem_keys_iff, ?_, h.length_eq, fun k hk hevicted j hj hne => ?_, fun k => ?_,
    fun k => ?_⟩
  · rw [h.keys]
    exact h.ranks.nodup.sublist (List.take_sublist ..)
  · exact h.lastUse_lt hk hevicted hj hne
  · exact congrArg Answer.held (h.contains k)
  · exact congrArg Answer.found (h.find? k)

theorem found_key_outlives_asked_key :
    let os : List (Operation ℕ) :=
      [.set "a" 1, .set "b" 2, .get "a", .contains "b", .set "c" 3]
    let u := Usage.ofRun 2 os
    ("b" ∈ u.live ∧ "b" ∉ u.held 2 ∧ "a" ∈ u.live ∧ "a" ≠ "b" ∧ u.lastUse "b" < u.lastUse "a") ∧
      (((ofCapacity 2).after os).perform (.get "a")).1 = .found (some 1) := by
  intro os u
  obtain ⟨-, -, -, hevicted, -, hget⟩ := held_keys_most_recently_used 2 os
  have hb : "b" ∈ u.live := by decide +kernel
  have hb' : "b" ∉ u.held 2 := by decide +kernel
  have ha : "a" ∈ u.live := by decide +kernel
  have hfound : (if "a" ∈ u.held 2 then lastSet "a" os else Option.none) = some 1 := by
    decide +kernel
  exact ⟨⟨hb, hb', ha, by decide, hevicted "b" hb hb' "a" ha (by decide)⟩,
    (hget "a").trans (congrArg Answer.found hfound)⟩

end Cache
end TextTemplate
