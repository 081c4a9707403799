import FrostlakeOdbc.Lib.Client
import Mathlib.Data.List.Induction
import Mathlib.Data.Set.Lattice
import Mathlib.Order.CompletePartialOrder

/-!
# Clients at work at once

Many clients share one channel, and an answer may reach any of them next. `schedule p s` is the exchange
of the clients `p` when the answers arrive in the order `s`; a client that is through asks nothing any
more. Each client has its own part of the exchange (`own`), which is a run of it that may have been
stopped anywhere (`begins_own_schedule`), so what a monitor holds of the clients one by one holds of
them in every order. Where the ghost state of a client is the set of what it holds, no two clients hold
the same thing (`pairwise_disjoint_after`).
-/

namespace Exchange

variable {ι Q R G α σ : Type}

namespace Client

/-! ## Runs that are not finished -/

/-- The exchange of `p` begins with `t`. -/
def Begins : Client Q R α → List (Q × R) → Prop
  | _, [] => True
  | done _, _ :: _ => False
  | ask q k, (q', r) :: t => q = q' ∧ (k r).Begins t

theorem begins_nil (p : Client Q R α) : p.Begins [] := by
  unfold Begins
  trivial

theorem Runs.begins {p : Client Q R α} {t : List (Q × R)} {a : α} (h : Runs p t a) : p.Begins t := by
  induction h with
  | done a => exact begins_nil _
  | ask _ ih => exact ⟨rfl, ih⟩

theorem Begins.of_append {p : Client Q R α} {s t : List (Q × R)} (h : p.Begins (s ++ t)) :
    p.Begins s := by
  induction s generalizing p with
  | nil => exact begins_nil p
  | cons e s ih =>
    cases p with
    | done a => exact False.elim h
    | ask q k => exact ⟨h.1, ih h.2⟩

end Client

open Client

namespace Monitor

variable {M : Monitor Q R G} {p : Client Q R α} {post : α → G → Prop} {g : G} {t : List (Q × R)}

/-- Wherever a client is stopped, it has come to its end or has a request to make. -/
theorem Holds.begins (h : M.Holds p post g) (hb : p.Begins t) (ha : M.Admits g t) :
    (∃ a, post a (M.after g t)) ∨ ∃ q, M.allows (M.after g t) q := by
  induction t generalizing p g with
  | nil =>
    cases p with
    | done a => exact .inl ⟨a, h⟩
    | ask q k => exact .inr ⟨q, h.1⟩
  | cons e t ih =>
    cases p with
    | done a => exact False.elim hb
    | ask q k =>
      obtain rfl : q = e.1 := hb.1
      exact ih (h.2 e.2 ha.1) hb.2 ha.2

/-- Each request of a client that is stopped somewhere is allowed where it is made. -/
theorem Holds.allows_of_begins (h : M.Holds p post g) {q : Q} {r : R} (hb : p.Begins (t ++ [(q, r)]))
    (ha : M.Admits g t) : M.allows (M.after g t) q := by
  induction t generalizing p g with
  | nil =>
    cases p with
    | done a => exact False.elim hb
    | ask q' k =>
      obtain rfl : q' = q := hb.1
      exact h.1
  | cons e t ih =>
    cases p with
    | done a => exact False.elim hb
    | ask q' k =>
      obtain rfl : q' = e.1 := hb.1
      exact ih (h.2 e.2 ha.1) hb.2 ha.2

end Monitor

/-! ## Many clients -/

section

variable [DecidableEq ι]

/-- The client's own part of an exchange of many. -/
def own (i : ι) (t : List (ι × Q × R)) : List (Q × R) :=
  t.filterMap fun e => if e.1 = i then some e.2 else none

theorem own_append (i : ι) (s t : List (ι × Q × R)) : own i (s ++ t) = own i s ++ own i t :=
  List.filterMap_append

theorem own_cons_self (i : ι) (e : Q × R) (t : List (ι × Q × R)) :
    own i ((i, e) :: t) = e :: own i t := by
  simp [own]

theorem own_cons_ne {i j : ι} (h : i ≠ j) (e : Q × R) (t : List (ι × Q × R)) :
    own j ((i, e) :: t) = own j t := by
  simp [own, h]

theorem mem_of_mem_own {i : ι} {e : Q × R} {t : List (ι × Q × R)} (h : e ∈ own i t) : (i, e) ∈ t := by
  obtain ⟨⟨j, e'⟩, hmem, he⟩ := List.mem_filterMap.1 h
  split at he
  · next heq =>
    cases he
    obtain rfl : j = i := heq
    exact hmem
  · cases he

/-- The exchange of the clients `p` when the answers arrive as `s` says. -/
def schedule (p : ι → Client Q R α) : List (ι × R) → List (ι × Q × R)
  | [] => []
  | (i, r) :: s =>
      match p i with
      | .done _ => schedule p s
      | .ask q k => (i, q, r) :: schedule (Function.update p i (k r)) s

/-- Whatever the order, what is a client's own of the exchange is the client's. -/
theorem begins_own_schedule (p : ι → Client Q R α) (s : List (ι × R)) (i : ι) :
    (p i).Begins (own i (schedule p s)) := by
  induction s generalizing p with
  | nil => exact begins_nil _
  | cons e s ih =>
    obtain ⟨j, r⟩ := e
    unfold schedule
    split
    · exact ih p
    · next q k hp =>
      have hrest := ih (Function.update p j (k r))
      by_cases hij : j = i
      · subst hij
        rw [Function.update_self] at hrest
        rw [own_cons_self, hp]
        exact ⟨rfl, hrest⟩
      · rw [Function.update_of_ne (Ne.symm hij)] at hrest
        rwa [own_cons_ne hij]

/-- No two clients hold the same thing, if a client comes to hold only what no client holds. -/
theorem pairwise_disjoint_after {M : Monitor Q R (Set σ)} {t : List (ι × Q × R)}
    (h : ∀ t₁ i q r t₂, t = t₁ ++ (i, q, r) :: t₂ → ∀ x ∈ M.next (M.after ∅ (own i t₁)) q r,
      x ∈ M.after ∅ (own i t₁) ∨ ∀ j, x ∉ M.after ∅ (own j t₁)) :
    Pairwise fun i j => Disjoint (M.after ∅ (own i t)) (M.after ∅ (own j t)) := by
  induction t using List.reverseRecOn with
  | nil => exact fun i j _ => disjoint_bot_left
  | append_singleton t e ih =>
    obtain ⟨k, q', r'⟩ := e
    have hapart := ih fun t₁ i q r t₂ ht => h t₁ i q r (t₂ ++ [(k, q', r')]) (by rw [ht]; simp)
    -- of what `k` holds after the step, another client holds nothing
    have hstep : ∀ j, j ≠ k →
        Disjoint (M.next (M.after ∅ (own k t)) q' r') (M.after ∅ (own j t)) := by
      intro j hj
      rw [Set.disjoint_left]
      intro x hx hmem
      rcases h t k q' r' [] rfl x hx with hheld | hfresh
      · exact Set.disjoint_left.1 (hapart hj.symm) hheld hmem
      · exact hfresh j hmem
    have hother : ∀ {j}, j ≠ k → own j (t ++ [(k, q', r')]) = own j t := by
      intro j hj
      rw [own_append, own_cons_ne hj.symm]
      exact List.append_nil _
    have hself : M.after ∅ (own k (t ++ [(k, q', r')])) = M.next (M.after ∅ (own k t)) q' r' := by
      rw [own_append, own_cons_self, M.after_append]
      rfl
    intro i j hij
    by_cases hi : i = k
    · subst hi
      rw [hself, hother hij.symm]
      exact hstep j hij.symm
    · rw [hother hi]
      by_cases hj : j = k
      · subst hj
        rw [hself]
        exact (hstep i hi).symm
      · rw [hother hj]
        exact hapart hij

end

end Exchange
