/-!
# Readers with a cursor

A reader takes things off the front of those that are left. It comes back with what it has read or
with a fault, and leaves what it has not taken. A reader that calls itself, or goes on round after
round, gets fuel for its calls and rounds; out of fuel it does not come back. Nothing is known
beforehand about how many calls and rounds there are: that some fuel is enough is something to be
proved.

* `Reader.Takes` says how much has been taken.
* `Reader.Follows` is what is proved of a reader that does the work of another one: it comes back,
  either with the fault of the other one or at a place from which both will agree.
-/

namespace DotAttributes

/-- A reader of what is made up of things of type `τ`, with faults of type `φ`. -/
abbrev Reader (τ φ α : Type) : Type := ExceptT φ (StateT (List τ) Option) α

/-- What a round of a loop comes back with: the state in which there is another round, or the
result of the loop. -/
inductive Round (σ α : Type)
  | next (state : σ)
  | last (result : α)

namespace Reader

variable {τ φ α β γ σ : Type}

/-- A reader that is out of fuel. -/
def stuck : Reader τ φ α := ExceptT.mk fun _ => none

/-- The outcome of a reader, with what it leaves; there is none if it does not come back. -/
def outcome? (reader : Reader τ φ α) (tokens : List τ) : Option (Except φ α × List τ) :=
  reader.run.run tokens

/-! ## What is taken -/

/-- At least `n` things are taken off the front. -/
def Takes (n : Nat) (tokens rest : List τ) : Prop :=
  ∃ taken, tokens = taken ++ rest ∧ n ≤ taken.length

variable {m n : Nat} {tokens rest left : List τ}

theorem Takes.refl (tokens : List τ) : Takes 0 tokens tokens := ⟨[], rfl, Nat.le_refl 0⟩

theorem Takes.cons (token : τ) (tokens : List τ) : Takes 1 (token :: tokens) tokens :=
  ⟨[token], rfl, Nat.le_refl 1⟩

theorem Takes.trans (h : Takes m tokens rest) (h' : Takes n rest left) :
    Takes (m + n) tokens left := by
  obtain ⟨taken, rfl, hm⟩ := h
  obtain ⟨more, rfl, hn⟩ := h'
  refine ⟨taken ++ more, (List.append_assoc ..).symm, ?_⟩
  rw [List.length_append]
  exact Nat.add_le_add hm hn

theorem Takes.mono (hmn : m ≤ n) (h : Takes n tokens rest) : Takes m tokens rest := by
  obtain ⟨taken, htokens, hn⟩ := h
  exact ⟨taken, htokens, Nat.le_trans hmn hn⟩

theorem Takes.length_add_le (h : Takes n tokens rest) : rest.length + n ≤ tokens.length := by
  obtain ⟨taken, rfl, hn⟩ := h
  rw [List.length_append]
  omega

/-- What holds wherever something has been taken holds behind a part of it as well. -/
theorem Takes.forall_takes {P : List τ → Prop} (htakes : Takes n tokens rest)
    (h : ∀ left, Takes 1 tokens left → P left) (left : List τ) (hleft : Takes 1 rest left) :
    P left :=
  h left ((htakes.trans hleft).mono (Nat.le_add_left 1 n))

/-! ## What comes back -/

/-- A reader comes back and takes at least `n` things. Either it has read something that is good,
together with what is left, or its fault is the answer. -/
def Follows (n : Nat) (reader : Reader τ φ α) (tokens : List τ) (answer : Except φ β)
    (good : α → List τ → Prop) : Prop :=
  ∃ outcome rest, reader.outcome? tokens = some (outcome, rest) ∧ Takes n tokens rest ∧
    match outcome with
    | .ok x => good x rest
    | .error fault => answer = .error fault

/-- A round of a loop comes back, and takes at least one thing if there is another round. -/
def Advances (round : Reader τ φ (Round σ α)) (tokens : List τ) : Prop :=
  ∃ outcome rest, round.outcome? tokens = some (outcome, rest) ∧
    ∀ state, outcome = .ok (.next state) → Takes 1 tokens rest

variable {reader first : Reader τ φ α} {next : α → Reader τ φ γ} {answer : Except φ β} {x : α}
  {fault : φ} {good good' : α → List τ → Prop} {last : γ → List τ → Prop}

@[simp]
theorem outcome?_get (tokens : List τ) :
    (get : Reader τ φ (List τ)).outcome? tokens = some (.ok tokens, tokens) := rfl

@[simp]
theorem outcome?_set (rest tokens : List τ) :
    (set rest : Reader τ φ PUnit).outcome? tokens = some (.ok .unit, rest) := rfl

@[simp]
theorem outcome?_pure (x : α) (tokens : List τ) :
    (Pure.pure x : Reader τ φ α).outcome? tokens = some (.ok x, tokens) := rfl

theorem outcome?_bind (first : Reader τ φ α) (next : α → Reader τ φ γ) (tokens : List τ) :
    (first >>= next).outcome? tokens =
      (first.outcome? tokens).bind fun (outcome, rest) =>
        match outcome with
        | .ok x => (next x).outcome? rest
        | .error fault => some (.error fault, rest) := by
  show (first.run.run tokens).bind _ = (first.run.run tokens).bind _
  refine congrArg _ (funext fun (outcome, rest) => ?_)
  cases outcome <;> rfl

theorem Follows.pure (h : good x tokens) :
    Follows 0 (Pure.pure x : Reader τ φ α) tokens answer good :=
  ⟨.ok x, tokens, rfl, Takes.refl tokens, h⟩

theorem Follows.throw (h : answer = .error fault) :
    Follows 0 (throw fault : Reader τ φ α) tokens answer good :=
  ⟨.error fault, tokens, rfl, Takes.refl tokens, h⟩

/-- Two readers one after the other. -/
theorem Follows.bind (hfirst : Follows n first tokens answer good)
    (hnext : ∀ x rest, Takes n tokens rest → good x rest →
      Follows 0 (next x) rest answer last) : Follows n (first >>= next) tokens answer last := by
  obtain ⟨outcome, rest, houtcome, htakes, h⟩ := hfirst
  cases outcome with
  | error fault =>
    refine ⟨.error fault, rest, ?_, htakes, h⟩
    rw [outcome?_bind, houtcome]
    rfl
  | ok x =>
    obtain ⟨outcome, left, hleft, hmore, h⟩ := hnext x rest htakes h
    refine ⟨outcome, left, ?_, htakes.trans hmore, h⟩
    rw [outcome?_bind, houtcome]
    exact hleft

/-- A reader behind one whose outcome is known. -/
theorem Follows.of_outcome? (hfirst : first.outcome? tokens = some (.ok x, rest))
    (htakes : Takes n tokens rest) (hnext : Follows 0 (next x) rest answer last) :
    Follows n (first >>= next) tokens answer last := by
  obtain ⟨outcome, left, hleft, hmore, h⟩ := hnext
  refine ⟨outcome, left, ?_, htakes.trans hmore, h⟩
  rw [outcome?_bind, hfirst]
  exact hleft

/-- What a reader takes depends on the part of its outcome that is known to be good. -/
theorem Follows.weaken (h : Follows n reader tokens answer good) (hmn : m ≤ n)
    (hgood : ∀ x rest, Takes n tokens rest → good x rest → good' x rest) :
    Follows m reader tokens answer good' := by
  obtain ⟨outcome, rest, houtcome, htakes, h⟩ := h
  refine ⟨outcome, rest, houtcome, htakes.mono hmn, ?_⟩
  cases outcome with
  | ok x => exact hgood x rest htakes h
  | error fault => exact h

theorem Follows.advances {round : Reader τ φ (Round σ α)} {good : Round σ α → List τ → Prop}
    (h : Follows n round tokens answer good)
    (hnext : ∀ state rest, good (.next state) rest → Takes 1 tokens rest) :
    Advances round tokens := by
  obtain ⟨outcome, rest, houtcome, -, h⟩ := h
  refine ⟨outcome, rest, houtcome, ?_⟩
  rintro state rfl
  exact hnext state rest h

end Reader

end DotAttributes
