import RequestEcho.Reader

/-!
# Items of a stream

An item is a result of polling that does not say to wait.  `next` polls until there is one, and `items` lists them up to
the first end.  Both can be read off the plain results of polling:

* `Brings` says which polls lead to the first item and that the polls after it are those of the reader that is left;
  every reader brings the item that `next` finds (`exists_brings`).
* So the items are the results of sufficiently many polls, without the waiting and up to the first end (`items_eq`).
-/

namespace RequestEcho

namespace Reader

/-- After `waits` polls that are not ready a reader brings `item`, and what it brings from there on is what the reader
`after` brings. -/
structure Brings (r : Reader) (waits : Nat) (item : Poll) (after : Reader) : Prop where
  ready : item ≠ .notReady
  polls_eq : ∀ n, polls (waits + 1 + n) r = List.replicate waits .notReady ++ item :: polls n after

/-- The first item is the one that `next` finds, and waiting for it takes reads from the script. -/
theorem exists_brings (r : Reader) :
    ∃ waits, Brings r waits r.next.1 r.next.2 ∧ waits + r.next.2.script.length ≤ r.script.length := by
  induction r using next.induct with
  | case1 r s hp ih =>
    obtain ⟨waits, hbrings, hlength⟩ := ih
    have hless := length_script_of_notReady hp
    rw [next_of_notReady hp]
    refine ⟨waits + 1, ⟨hbrings.ready, fun n => ?_⟩, by omega⟩
    have hcount : waits + 1 + 1 + n = waits + 1 + n + 1 := by omega
    rw [hcount, polls, hp, hbrings.polls_eq, List.replicate_succ, List.cons_append]
  | case2 r hp =>
    have hready : r.poll.1 ≠ .notReady := fun h => hp r.poll.2 (by rw [← h])
    have hle := length_script_poll_le r
    rw [next_of_ready hready]
    refine ⟨0, ⟨hready, fun n => ?_⟩, by omega⟩
    rw [Nat.zero_add, Nat.add_comm, polls]
    rfl

/-- What is not waiting among the first results: the first item, and the same of the polls after it. -/
theorem Brings.filter_polls {r after : Reader} {waits : Nat} {item : Poll} (h : Brings r waits item after) (n : Nat) :
    (polls (waits + 1 + n) r).filter (· ≠ .notReady) = item :: (polls n after).filter (· ≠ .notReady) := by
  rw [h.polls_eq, List.filter_append, List.filter_cons_of_pos (by simpa using h.ready), List.filter_replicate]
  simp

/-- A reader brings one item and no other. -/
theorem Brings.item_unique {r after after' : Reader} {waits waits' : Nat} {item item' : Poll}
    (h : Brings r waits item after) (h' : Brings r waits' item' after') : item = item' := by
  have hfirst := h.filter_polls waits'
  have hfirst' := h'.filter_polls waits
  have hcount : waits + 1 + waits' = waits' + 1 + waits := by omega
  rw [hcount, hfirst'] at hfirst
  exact (List.cons.inj hfirst).1.symm

/-- A script read to its end has nothing more to wait for, so the number of its reads says how many polls suffice. -/
theorem items_eq (limit : Nat) (r : Reader) {n : Nat} (h : r.script.length + limit ≤ n) :
    items limit r = (((polls n r).filter (· ≠ .notReady)).takeWhile (· ≠ .ended)).take limit := by
  induction limit generalizing r n with
  | zero => rfl
  | succ limit ih =>
    obtain ⟨waits, hbrings, hlength⟩ := exists_brings r
    obtain ⟨m, rfl⟩ : ∃ m, n = waits + 1 + m := ⟨n - (waits + 1), by omega⟩
    have hrest := ih r.next.2 (show r.next.2.script.length + limit ≤ m by omega)
    rw [hbrings.filter_polls, items]
    rcases hnext : r.next with ⟨p, s⟩
    rw [hnext] at hrest
    by_cases hp : p = .ended
    · subst hp
      rfl
    · rw [List.takeWhile_cons_of_pos (by simpa using hp), List.take_succ_cons, ← hrest]
      cases p with
      | ended => exact absurd rfl hp
      | _ => rfl

/-- The items after the first one. -/
theorem items_next (limit : Nat) (r : Reader) {n : Nat} (h : r.script.length + limit + 1 ≤ n) :
    items limit r.next.2 =
      (((polls n r).filter (· ≠ .notReady)).tail.takeWhile (· ≠ .ended)).take limit := by
  obtain ⟨waits, hbrings, hlength⟩ := exists_brings r
  obtain ⟨m, rfl⟩ : ∃ m, n = waits + 1 + m := ⟨n - (waits + 1), by omega⟩
  rw [hbrings.filter_polls, List.tail_cons, items_eq limit r.next.2 (show r.next.2.script.length + limit ≤ m by omega)]

end Reader

end RequestEcho
