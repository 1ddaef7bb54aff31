import Mathlib

/-! # Readers that can crash

A reader starts at an index of its input.  It returns a value with the next index, refuses the input
with a message, or crashes on a defect `δ` of the language, such as an index out of range.  Beside
its value it gives the notes `ρ` it took on the way.

A plain reader is a function of the index into `Except`, which neither crashes nor takes notes.
`Follows` compares the two at one index: the same value and the same next index, or the same
message, and what the notes are.  It is proved part by part (`Follows.bind`), so a reader that
follows a plain one never crashes. -/

namespace LogosDelivery.Lib

universe u

inductive ReadFailure (δ : Type u) where
  | refused (message : String)
  | defect (d : δ)
  /-- The model's bound on the rounds of a loop was too small. -/
  | unfinished

def Reader (δ ρ α : Type u) : Type u := ℕ → Except (ReadFailure δ) (α × ℕ × List ρ)

namespace Reader

variable {δ ρ α β : Type u}

instance : Monad (Reader δ ρ) where
  pure a := fun idx => .ok (a, idx, [])
  bind x f := fun idx =>
    match x idx with
    | .error e => .error e
    | .ok (a, idx, reads) =>
        match f a idx with
        | .error e => .error e
        | .ok (b, idx, more) => .ok (b, idx, reads ++ more)

/-- Moves on by `n`. -/
def advance (n : ℕ) : Reader δ ρ PUnit := fun idx => .ok (⟨⟩, idx + n, [])

def refuse (message : String) : Reader δ ρ α := fun _ => .error (.refused message)

def crash (d : δ) : Reader δ ρ α := fun _ => .error (.defect d)

def giveUp : Reader δ ρ α := fun _ => .error .unfinished

def note (r : ρ) : Reader δ ρ PUnit := fun idx => .ok (⟨⟩, idx, [r])

/-- The reader at the current index. -/
def here (f : ℕ → Reader δ ρ α) : Reader δ ρ α := fun idx => f idx idx

/-- A reader of another input from its start, with the number of items it took; the index into this
input stays. -/
def nested (x : Reader δ ρ α) : Reader δ ρ (α × ℕ) := fun idx =>
  match x 0 with
  | .error e => .error e
  | .ok (a, count, reads) => .ok ((a, count), idx, reads)

theorem bind_error {x : Reader δ ρ α} {idx : ℕ} {e : ReadFailure δ} (f : α → Reader δ ρ β)
    (h : x idx = .error e) : (x >>= f) idx = .error e := by
  simp only [Bind.bind, h]

theorem bind_ok {x : Reader δ ρ α} {idx next : ℕ} {a : α} {reads : List ρ} (f : α → Reader δ ρ β)
    (h : x idx = .ok (a, next, reads)) :
    (x >>= f) idx =
      match f a next with
      | .error e => .error e
      | .ok (b, last, more) => .ok (b, last, reads ++ more) := by
  simp only [Bind.bind, h]

/-- After a reader that took no notes. -/
theorem bind_silent {x : Reader δ ρ α} {idx next : ℕ} {a : α} (f : α → Reader δ ρ β)
    (h : x idx = .ok (a, next, [])) : (x >>= f) idx = f a next := by
  rw [bind_ok f h]
  rcases f a next with e | ⟨b, last, more⟩ <;> rfl

@[simp] theorem pure_apply (a : α) (idx : ℕ) :
    (pure a : Reader δ ρ α) idx = .ok (a, idx, []) := rfl

@[simp] theorem here_apply (f : ℕ → Reader δ ρ α) (idx : ℕ) : here f idx = f idx idx := rfl

@[simp] theorem refuse_apply (m : String) (idx : ℕ) :
    (refuse m : Reader δ ρ α) idx = .error (.refused m) := rfl

@[simp] theorem pure_bind (a : α) (f : α → Reader δ ρ β) : (pure a >>= f) = f a := by
  funext idx
  exact bind_silent f (pure_apply a idx)

@[simp] theorem advance_bind (n idx : ℕ) (f : PUnit → Reader δ ρ β) :
    (advance n >>= f) idx = f ⟨⟩ (idx + n) :=
  bind_silent f rfl

end Reader

/-! ### Following a plain reader -/

section Follows

variable {δ ρ α β : Type u}

/-- The outcome of a reader beside the outcome of a plain one, with what is known of the value, the
next index and the notes. -/
def Follows (x : Except (ReadFailure δ) (α × ℕ × List ρ)) (y : Except String (α × ℕ))
    (Q : α → ℕ → List ρ → Prop) : Prop :=
  match x, y with
  | .ok (a, idx, reads), .ok (b, next) => a = b ∧ idx = next ∧ Q a idx reads
  | .error (.refused m), .error m' => m = m'
  | _, _ => False

namespace Follows

variable {Q Q' : α → ℕ → List ρ → Prop} {R : β → ℕ → List ρ → Prop}

theorem ok {a : α} {idx : ℕ} {reads : List ρ} (h : Q a idx reads) :
    Follows (δ := δ) (.ok (a, idx, reads)) (.ok (a, idx)) Q := ⟨rfl, rfl, h⟩

theorem refused (m : String) : Follows (δ := δ) (.error (.refused m)) (.error m) Q := rfl

theorem cases {x : Except (ReadFailure δ) (α × ℕ × List ρ)} {y : Except String (α × ℕ)}
    (h : Follows x y Q) :
    (∃ m, x = .error (.refused m) ∧ y = .error m) ∨
      ∃ a idx reads, x = .ok (a, idx, reads) ∧ y = .ok (a, idx) ∧ Q a idx reads := by
  match x, y, h with
  | .error (.refused m), .error m', h => exact Or.inl ⟨m, rfl, by rw [show m = m' from h]⟩
  | .ok (a, idx, reads), .ok (b, next), h =>
      obtain ⟨rfl, rfl, hQ⟩ := h
      exact Or.inr ⟨a, idx, reads, rfl, rfl, hQ⟩

/-- Beside a plain reader whose index is left out. -/
theorem cases_map {x : Except (ReadFailure δ) (α × ℕ × List ρ)} {y : Except String α} {last : ℕ}
    (h : Follows x (y.map (fun a => (a, last))) Q) :
    (∃ m, x = .error (.refused m) ∧ y = .error m) ∨
      ∃ a reads, x = .ok (a, last, reads) ∧ y = .ok a ∧ Q a last reads := by
  cases y with
  | error m' =>
      rcases h.cases with ⟨m, hx, hy⟩ | ⟨a, idx, reads, hx, hy, hQ⟩
      · exact Or.inl ⟨m, hx, congrArg Except.error (Except.error.inj hy)⟩
      · cases hy
  | ok b =>
      rcases h.cases with ⟨m, hx, hy⟩ | ⟨a, idx, reads, hx, hy, hQ⟩
      · cases hy
      · obtain ⟨rfl, rfl⟩ := Prod.mk.inj (Except.ok.inj hy)
        exact Or.inr ⟨_, reads, hx, rfl, hQ⟩

theorem imp {x : Except (ReadFailure δ) (α × ℕ × List ρ)} {y : Except String (α × ℕ)}
    (h : Follows x y Q) (himp : ∀ a idx reads, Q a idx reads → Q' a idx reads) :
    Follows x y Q' := by
  rcases h.cases with ⟨m, rfl, rfl⟩ | ⟨a, idx, reads, rfl, rfl, hQ⟩
  · exact refused m
  · exact ok (himp _ _ _ hQ)

/-- A part that the plain reader does not have. -/
theorem ok_bind {x : Reader δ ρ α} {idx next : ℕ} {a : α} {reads : List ρ}
    {f : α → Reader δ ρ β} {z : Except String (β × ℕ)} (hx : x idx = .ok (a, next, reads))
    (h : Follows (f a next) z (fun b last more => R b last (reads ++ more))) :
    Follows ((x >>= f) idx) z R := by
  rw [Reader.bind_ok f hx]
  rcases h.cases with ⟨m, hrest, rfl⟩ | ⟨b, last, more, hrest, rfl, hR⟩
  · rw [hrest]
    exact refused m
  · rw [hrest]
    exact ok hR

/-- One reader after the other. -/
theorem bind {x : Reader δ ρ α} {idx : ℕ} {y : Except String (α × ℕ)} {f : α → Reader δ ρ β}
    {g : α × ℕ → Except String (β × ℕ)} (h : Follows (x idx) y Q)
    (hf : ∀ a next reads, Q a next reads →
      Follows (f a next) (g (a, next)) (fun b last more => R b last (reads ++ more))) :
    Follows ((x >>= f) idx) (y >>= g) R := by
  rcases h.cases with ⟨m, hx, rfl⟩ | ⟨a, next, reads, hx, rfl, hQ⟩
  · rw [Reader.bind_error f hx]
    exact refused m
  · exact ok_bind hx (hf a next reads hQ)

end Follows

end Follows

end LogosDelivery.Lib
