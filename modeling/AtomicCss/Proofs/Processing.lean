import AtomicCss.Processing
import Mathlib.Data.List.Forall2
import Mathlib.Tactic.Common

/-!
# Computations that succeed

`Gives p a` says that a computation succeeds with the value `a`, whatever was warned about before
and after. The lemmas take a successful computation apart; with them no proof has to open the
monads.
-/

namespace AtomicCss.Proofs

variable {ε α β : Type}

/-- The computation succeeds with this value behind some list of warnings. -/
def Gives (p : Processing α) (a : α) : Prop :=
  ∃ ws, (p ws).1 = .ok a

lemma gives_of_collect {p : Processing α} {a : α} (h : p.collect.1 = .ok a) : Gives p a :=
  ⟨[], h⟩

lemma gives_bind {p : Processing α} {f : α → Processing β} {b : β} (h : Gives (p >>= f) b) :
    ∃ a, Gives p a ∧ Gives (f a) b := by
  obtain ⟨ws, h⟩ := h
  change (ExceptT.bindCont f (p ws).1 (p ws).2).1 = .ok b at h
  cases hp : (p ws).1 with
  | error e =>
    rw [hp] at h
    cases h
  | ok a =>
    rw [hp] at h
    exact ⟨a, ⟨ws, hp⟩, ⟨(p ws).2, h⟩⟩

lemma gives_pure {a b : α} (h : Gives (pure a) b) : b = a := by
  obtain ⟨ws, h⟩ := h
  exact (Except.ok.inj h).symm

lemma gives_fail {e : StyleError} {a : α} (h : Gives (Processing.fail e) a) : False := by
  obtain ⟨ws, h⟩ := h
  cases h

lemma gives_require {holds : Bool} {e : StyleError} {a : Unit}
    (h : Gives (Processing.require holds e) a) : holds = true := by
  cases holds with
  | true => rfl
  | false => exact (gives_fail h).elim

lemma gives_ofExcept {r : Except StyleError α} {a : α} (h : Gives (Processing.ofExcept r) a) :
    r = .ok a := by
  obtain ⟨ws, h⟩ := h
  exact h

lemma gives_ofCss {r : Except CssFault α} {a : α} (h : Gives (Processing.ofCss r) a) :
    r = .ok a := by
  have h := gives_ofExcept h
  cases r with
  | error e => cases h
  | ok b => exact congrArg Except.ok (Except.ok.inj h)

lemma gives_mapM {f : α → Processing β} {xs : List α} {ys : List β} (h : Gives (xs.mapM f) ys) :
    List.Forall₂ (fun x y => Gives (f x) y) xs ys := by
  induction xs generalizing ys with
  | nil =>
    rw [List.mapM_nil] at h
    rw [gives_pure h]
    exact .nil
  | cons x xs ih =>
    rw [List.mapM_cons] at h
    obtain ⟨y, hy, h⟩ := gives_bind h
    obtain ⟨rest, hrest, h⟩ := gives_bind h
    rw [gives_pure h]
    exact .cons hy (ih hrest)

lemma exists_of_forall₂ {R : α → β → Prop} {xs : List α} {ys : List β} {y : β}
    (h : List.Forall₂ R xs ys) (hy : y ∈ ys) : ∃ x ∈ xs, R x y := by
  induction h with
  | nil => cases hy
  | cons hxy _ ih =>
    rcases List.mem_cons.1 hy with rfl | hy
    · exact ⟨_, List.mem_cons_self, hxy⟩
    · obtain ⟨x, hx, hr⟩ := ih hy
      exact ⟨x, List.mem_cons_of_mem _ hx, hr⟩

/-- What a traversal gives for some element. -/
lemma gives_mapM_mem {f : α → Processing β} {xs : List α} {ys : List β} {y : β}
    (h : Gives (xs.mapM f) ys) (hy : y ∈ ys) : ∃ x ∈ xs, Gives (f x) y :=
  exists_of_forall₂ (gives_mapM h) hy

lemma bind_eq_ok {r : Except ε α} {f : α → Except ε β} {b : β} (h : r >>= f = .ok b) :
    ∃ a, r = .ok a ∧ f a = .ok b := by
  cases r with
  | error e => cases h
  | ok a => exact ⟨a, rfl, h⟩

lemma eq_ok_of_isOk {r : Except ε α} (h : r.isOk = true) : ∃ a, r = .ok a := by
  cases r with
  | error e => cases h
  | ok a => exact ⟨a, rfl⟩

lemma eq_ok_of_toOption {r : Except ε α} {a : α} (h : r.toOption = some a) : r = .ok a := by
  cases r with
  | error e => cases h
  | ok b => exact congrArg _ (Option.some.inj h)

lemma map_eq_ok {r : Except ε α} {f : α → β} {b : β} (h : r.map f = .ok b) :
    ∃ a, r = .ok a ∧ f a = b := by
  cases r with
  | error e => cases h
  | ok a => exact ⟨a, rfl, Except.ok.inj h⟩

lemma map_eq_ok_iff {r : Except ε α} {f : α → β} (hf : Function.Injective f) {a : α} :
    r.map f = .ok (f a) ↔ r = .ok a := by
  constructor
  · intro h
    obtain ⟨b, hb, heq⟩ := map_eq_ok h
    rw [hb, hf heq]
  · rintro rfl
    rfl

lemma mapM_eq_ok {f : α → Except ε β} {xs : List α} {ys : List β} (h : xs.mapM f = .ok ys) :
    List.Forall₂ (fun x y => f x = .ok y) xs ys := by
  induction xs generalizing ys with
  | nil =>
    rw [List.mapM_nil] at h
    cases h
    exact .nil
  | cons x xs ih =>
    rw [List.mapM_cons] at h
    obtain ⟨y, hy, h⟩ := bind_eq_ok h
    obtain ⟨rest, hrest, h⟩ := bind_eq_ok h
    cases h
    exact .cons hy (ih hrest)

/-- What holds of every step of a fold that succeeds holds of its result. -/
lemma foldlM_invariant {P : β → Prop} {f : β → α → Except ε β} {xs : List α} {b result : β}
    (h : xs.foldlM f b = .ok result) (hb : P b)
    (hstep : ∀ b x b', x ∈ xs → P b → f b x = .ok b' → P b') : P result := by
  induction xs generalizing b with
  | nil =>
    cases h
    exact hb
  | cons x xs ih =>
    rw [List.foldlM_cons] at h
    obtain ⟨b', hb', h⟩ := bind_eq_ok h
    exact ih h (hstep b x b' List.mem_cons_self hb hb')
      fun b x b' hx => hstep b x b' (List.mem_cons_of_mem _ hx)

end AtomicCss.Proofs
