import Reckoner.Proofs.Parser.Depth
import Reckoner.Proofs.Parser.Unbounded

/-!
# Runs side by side

The parser and the unbounded parser go side by side from where one stands as the other does
(`ParserState.Mirrors`).  A step of the unbounded parser *follows* one of the parser if it comes to
an end with the same result (`UnboundedM.Follows`).  What follows is kept by sequences, so there is
one lemma for each kind of step.

The events of a step have a shape.

* A whole step is `Paced`: its rounds begin with requests, and its calls stand behind requests that
  were answered.
* A call of `expression` begins with an event that needs an answer in front of it; what may stand
  behind an answer `Continues` it.
* What stands behind the beginning of a round is `Requested`.

Each request is paid for with a token that was ahead.
-/

namespace Reckoner

/-! ## Paced runs -/

namespace Event

/-- The number of requests that are noted. -/
def requests (log : List Event) : Nat :=
  log.countP isRequest

variable {log later : List Event}

@[simp] theorem requests_nil : requests [] = 0 := rfl

@[simp] theorem requests_request {current : Option Token} {answered : Bool} :
    requests (.request current answered :: log) = requests log + 1 :=
  List.countP_cons_of_pos rfl

@[simp] theorem requests_call : requests (.call :: log) = requests log :=
  List.countP_cons_of_neg Bool.false_ne_true

@[simp] theorem requests_round : requests (.round :: log) = requests log :=
  List.countP_cons_of_neg Bool.false_ne_true

@[simp] theorem requests_append : requests (log ++ later) = requests log + requests later :=
  List.countP_append

end Event

/-- Nothing is repeated without a request: a round of a loop begins with one, and a call of
`expression` stands directly behind one that was answered.  None is made at the end of input. -/
inductive Paced : List Event → Prop
  | done : Paced []
  | request {current : Option Token} {answered : Bool} {log : List Event}
      (hmore : current ≠ some .endOfInput) (hlater : Paced log) :
      Paced (.request current answered :: log)
  | call {current : Option Token} {log : List Event} (hmore : current ≠ some .endOfInput)
      (hlater : Paced log) : Paced (.request current true :: .call :: log)
  | round {current : Option Token} {answered : Bool} {log : List Event}
      (hround : Paced (.request current answered :: log)) :
      Paced (.round :: .request current answered :: log)

namespace Paced

variable {log later : List Event}

theorem append (hlog : Paced log) (hlater : Paced later) : Paced (log ++ later) := by
  induction hlog with
  | done => exact hlater
  | request hmore _ ih => exact .request hmore ih
  | call hmore _ ih => exact .call hmore ih
  | round _ ih => exact .round ih

/-- Each request has at most a round in front of it and a call behind it. -/
theorem length_le (hlog : Paced log) : log.length ≤ 3 * Event.requests log := by
  have hless : log.length ≤ 3 * Event.requests log ∧
      ∀ current answered later, log = .request current answered :: later →
        log.length < 3 * Event.requests log := by
    induction hlog with
    | done => simp
    | request _ _ ih =>
      simp only [List.length_cons, Event.requests_request]
      exact ⟨by omega, fun _ _ _ _ => by omega⟩
    | call _ _ ih =>
      simp only [List.length_cons, Event.requests_request, Event.requests_call]
      exact ⟨by omega, fun _ _ _ _ => by omega⟩
    | round _ ih =>
      -- the request behind the round has none in front of it
      have hlt := ih.2 _ _ _ rfl
      rw [List.length_cons, Event.requests_round]
      exact ⟨hlt, by simp⟩
  exact hless.1

end Paced

/-- Events that may stand behind a request that was answered. -/
def Continues (events : List Event) : Prop :=
  ∀ current, current ≠ some .endOfInput → Paced (.request current true :: events)

/-- Events that begin with a request. -/
def Requested (events : List Event) : Prop :=
  ∃ current answered later, events = .request current answered :: later ∧ Paced events

theorem Paced.continues {events : List Event} (hevents : Paced events) : Continues events :=
  fun _ hmore => .request hmore hevents

theorem Continues.append {events later : List Event} (hevents : Continues events)
    (hlater : Paced later) : Continues (events ++ later) :=
  fun current hmore => (hevents current hmore).append hlater

/-! ## Runs without bounds -/

namespace UnboundedM

variable {α β : Type} {u : UnboundedM α} {g : α → UnboundedM β} {w : UnboundedState}

/-- The result of a step that begins in a state, and the state it leaves, if it ends. -/
def run (u : UnboundedM α) (w : UnboundedState) : Option (Except ParseError α × UnboundedState) :=
  u w

theorem run_bind :
    (u >>= g).run w = match u.run w with
      | some (.ok a, middle) => (g a).run middle
      | some (.error error, middle) => some (.error error, middle)
      | none => none := by
  show ExceptT.bind u g w = _
  unfold run
  simp only [ExceptT.bind, ExceptT.mk, bind, StateT.bind, Option.bind]
  rcases u w with _ | ⟨_ | _, _⟩ <;> rfl

theorem run_peek_bind {g : Lexeme → UnboundedM β} :
    (Unbounded.peek >>= g).run w = (g w.current).run w := rfl

theorem run_snippet_throw {span : Span} {error : Snippet → ParseError} :
    (Unbounded.snippet span >>= fun snippet => (throw (error snippet) : UnboundedM α)).run w =
      some (.error (error ⟨w.cursor.source, span⟩), w) := rfl

theorem run_advance {registry : Registry} :
    (Unbounded.advance registry).run w = match w.cursor.next registry with
      | (.ok first, after) =>
        some (.ok (), ⟨first, after, w.log ++ [.request (some w.current.token) true]⟩)
      | (.error error, after) => some (.error (.lexical error),
          ⟨w.current, after, w.log ++ [.request (some w.current.token) false]⟩) := by
  show (match w.cursor.next registry with
    | (.ok first, after) => (set (UnboundedState.mk first after
        (w.log ++ [Event.request (some w.current.token) true])) : UnboundedM Unit)
    | (.error error, after) => (do
        set (UnboundedState.mk w.current after
          (w.log ++ [Event.request (some w.current.token) false]))
        throw (ParseError.lexical error) : UnboundedM Unit)).run w = _
  rcases w.cursor.next registry with ⟨_ | _, _⟩ <;> rfl

end UnboundedM

/-! ## Following the parser -/

/-- The unbounded parser stands where the parser stands.  At the end of input the lexer has no part
in it any more. -/
structure ParserState.Mirrors (registry : Registry) (s : ParserState) (w : UnboundedState) :
    Prop where
  source_eq : w.cursor.source = s.source
  current : w.current = s.current
  upcoming : s.current.token ≠ .endOfInput → ∃ steps, w.cursor.rest.length < steps ∧
    s.upcoming = LexemeStream.unfold registry steps w.cursor

namespace UnboundedM

variable {registry : Registry} {α β : Type} {m : ParserM α} {u : UnboundedM α}
  {f : α → ParserM β} {g : α → UnboundedM β} {s t : ParserState} {w x : UnboundedState}
  {shape first second both : List Event → Prop}

/-- How a run of the unbounded parser ends beside one of the parser: with the same result, and
events of a shape.  The tokens that were ahead pay for the requests. -/
inductive Ends (registry : Registry) (shape : List Event → Prop) (s : ParserState)
    (w : UnboundedState) {α : Type} : Except ParseError α × ParserState →
      Option (Except ParseError α × UnboundedState) → Prop
  | ok {a : α} {t : ParserState} {x : UnboundedState} {events : List Event}
      (hlog : x.log = w.log ++ events) (hshape : shape events)
      (hdrawn : t.drawn = s.drawn + Event.requests events)
      (hpending : Event.requests events + t.pending ≤ s.pending)
      (hmirrors : t.Mirrors registry x) : Ends registry shape s w (.ok a, t) (some (.ok a, x))
  | error {error : ParseError} {t : ParserState} {x : UnboundedState} {events : List Event}
      (hlog : x.log = w.log ++ events) (hshape : shape events)
      (hdrawn : t.drawn = s.drawn + Event.requests events)
      (hpending : Event.requests events ≤ s.pending) :
      Ends registry shape s w (.error error, t) (some (.error error, x))

/-- What has happened in between comes in front of the events. -/
theorem Ends.behind {result : Except ParseError α × ParserState}
    {result' : Option (Except ParseError α × UnboundedState)} {before : List Event}
    (hends : Ends registry second t x result result') (hlog : x.log = w.log ++ before)
    (hshape : ∀ {events}, second events → both (before ++ events))
    (hdrawn : t.drawn = s.drawn + Event.requests before)
    (hpending : Event.requests before + t.pending ≤ s.pending) :
    Ends registry both s w result result' := by
  cases hends with
  | ok hlog' hshape' hdrawn' hpending' hmirrors =>
    refine .ok (by rw [hlog', hlog, List.append_assoc]) (hshape hshape') ?_ ?_ hmirrors
    · rw [hdrawn', hdrawn, Event.requests_append, Nat.add_assoc]
    · rw [Event.requests_append]
      omega
  | error hlog' hshape' hdrawn' hpending' =>
    refine .error (by rw [hlog', hlog, List.append_assoc]) (hshape hshape') ?_ ?_
    · rw [hdrawn', hdrawn, Event.requests_append, Nat.add_assoc]
    · rw [Event.requests_append]
      omega

/-- Beside a step of the parser, a step of the unbounded parser comes to an end. -/
def Follows (registry : Registry) (shape : List Event → Prop) (m : ParserM α) (u : UnboundedM α)
    (s : ParserState) (w : UnboundedState) : Prop :=
  Ends registry shape s w (m.run s) (u.run w)

namespace Follows

/-- A step that follows one of the parser ends with its result. -/
theorem exists_run (hfollows : Follows registry shape m u s w) :
    ∃ x events, u.run w = some ((m.run s).1, x) ∧ x.log = w.log ++ events ∧ shape events ∧
      (m.run s).2.drawn = s.drawn + Event.requests events ∧
      Event.requests events ≤ s.pending := by
  unfold Follows at hfollows
  generalize m.run s = result, u.run w = result' at hfollows ⊢
  cases hfollows with
  | ok hlog hshape hdrawn hpending _ => exact ⟨_, _, rfl, hlog, hshape, hdrawn, by omega⟩
  | error hlog hshape hdrawn hpending => exact ⟨_, _, rfl, hlog, hshape, hdrawn, hpending⟩

theorem bind (hfirst : Follows registry first m u s w)
    (happend : ∀ {events later}, first events → second later → both (events ++ later))
    (hstop : ∀ {events}, first events → both events)
    (hnext : ∀ a t x, t.Mirrors registry x → t.pending ≤ s.pending →
      Follows registry second (f a) (g a) t x) :
    Follows registry both (m >>= f) (u >>= g) s w := by
  unfold Follows at hfirst ⊢
  rw [run_bind, ParserM.run_bind]
  generalize m.run s = result, u.run w = result' at hfirst ⊢
  cases hfirst with
  | error hlog hshape hdrawn hpending => exact .error hlog (hstop hshape) hdrawn hpending
  | ok hlog hshape hdrawn hpending hmirrors =>
    exact (hnext _ _ _ hmirrors (by omega)).behind hlog (happend hshape) hdrawn hpending

theorem mono (hfirst : Follows registry first m u s w)
    (hshape : ∀ {events}, first events → both events) : Follows registry both m u s w := by
  unfold Follows at hfirst ⊢
  generalize m.run s = result, u.run w = result' at hfirst ⊢
  cases hfirst with
  | ok hlog hfirst hdrawn hpending hmirrors =>
    exact .ok hlog (hshape hfirst) hdrawn hpending hmirrors
  | error hlog hfirst hdrawn hpending => exact .error hlog (hshape hfirst) hdrawn hpending

/-- A step and what comes behind it. -/
theorem andThen (hfirst : Follows registry Paced m u s w)
    (hnext : ∀ a t x, t.Mirrors registry x → t.pending ≤ s.pending →
      Follows registry Paced (f a) (g a) t x) :
    Follows registry Paced (m >>= f) (u >>= g) s w :=
  hfirst.bind Paced.append id hnext

/-- A step behind an answer and what comes behind both. -/
theorem goOn (hfirst : Follows registry Continues m u s w)
    (hnext : ∀ a t x, t.Mirrors registry x → t.pending ≤ s.pending →
      Follows registry Paced (f a) (g a) t x) :
    Follows registry Continues (m >>= f) (u >>= g) s w :=
  hfirst.bind Continues.append id hnext

theorem ite {c : Prop} [Decidable c] {yes no : ParserM α} {yes' no' : UnboundedM α}
    (hyes : c → Follows registry shape yes yes' s w)
    (hno : ¬ c → Follows registry shape no no' s w) :
    Follows registry shape (if c then yes else no) (if c then yes' else no') s w := by
  by_cases h : c
  · rw [if_pos h, if_pos h]
    exact hyes h
  · rw [if_neg h, if_neg h]
    exact hno h

/-! ## Steps -/

theorem pure {a : α} (hmirrors : s.Mirrors registry w) :
    Follows registry Paced (pure a) (pure a) s w :=
  .ok (List.append_nil _).symm .done rfl (by simp) hmirrors

/-- On both sides an error holds a snippet of the text that is read. -/
theorem snippet_throw {span : Span} {error : Snippet → ParseError}
    (hmirrors : s.Mirrors registry w) :
    Follows registry Paced
      (Parser.snippet span >>= fun snippet => (throw (error snippet) : ParserM α))
      (Unbounded.snippet span >>= fun snippet => throw (error snippet)) s w := by
  unfold Follows
  rw [run_snippet_throw, ParserM.run_snippet_throw, hmirrors.source_eq]
  exact .error (List.append_nil _).symm .done rfl (by simp)

theorem peek_bind {f : Lexeme → ParserM β} {g : Lexeme → UnboundedM β}
    (hmirrors : s.Mirrors registry w)
    (hnext : Follows registry shape (f s.current) (g s.current) s w) :
    Follows registry shape (Parser.peek >>= f) (Unbounded.peek >>= g) s w := by
  unfold Follows
  rw [run_peek_bind, ParserM.run_peek_bind, hmirrors.current]
  exact hnext

/-- A loop of the parser without rounds has come to the end of input. -/
theorem peek_ended {a : α} {g : Lexeme → UnboundedM α} (hmirrors : s.Mirrors registry w)
    (hpending : s.pending ≤ 0)
    (hended : s.current.token = .endOfInput → g s.current = Pure.pure a) :
    Follows registry Paced (Pure.pure a) (Unbounded.peek >>= g) s w := by
  have hcurrent : s.current.token = .endOfInput := by
    by_contra hmore
    exact absurd hpending (Nat.not_le.mpr (ParserState.pending_pos hmore))
  unfold Follows
  rw [run_peek_bind, hmirrors.current, hended hcurrent]
  exact pure hmirrors

theorem reject {expected : Expectation} (hmirrors : s.Mirrors registry w) :
    Follows registry Paced (Parser.reject expected : ParserM α) (Unbounded.reject expected) s w :=
  peek_bind hmirrors (snippet_throw hmirrors)

theorem wrap {limit height : Nat} {expr : Expr} {span : Span} (hmirrors : s.Mirrors registry w) :
    Follows registry Paced (Parser.wrap limit expr height span)
      (Unbounded.wrap limit expr height span) s w := by
  unfold Parser.wrap Unbounded.wrap
  split
  · exact snippet_throw hmirrors
  · exact pure hmirrors

/-- Only the parser counts rounds. -/
theorem roundsLeft_bind {f : Nat → ParserM β} {u : UnboundedM β}
    (hnext : Follows registry shape (f (s.upcoming.size + 1)) u s w) :
    Follows registry shape (Parser.roundsLeft >>= f) u s w :=
  hnext

/-- Only the unbounded parser notes events. -/
theorem note_bind {event : Event} {u : UnboundedM α} (hmirrors : s.Mirrors registry w)
    (hevent : event.isRequest = false)
    (hshape : ∀ {events}, first events → both (event :: events))
    (hnext : ∀ x, s.Mirrors registry x → Follows registry first m u s x) :
    Follows registry both m (Unbounded.note event >>= fun _ => u) s w := by
  have hnone : Event.requests [event] = 0 := by simp [Event.requests, hevent]
  have hlater := hnext ⟨w.current, w.cursor, w.log ++ [event]⟩
    ⟨hmirrors.source_eq, hmirrors.current, hmirrors.upcoming⟩
  exact hlater.behind rfl hshape (by rw [hnone]; rfl) (by omega)

/-- A round begins with a request. -/
theorem round {u : UnboundedM α} (hmirrors : s.Mirrors registry w)
    (hnext : ∀ x, s.Mirrors registry x → Follows registry Requested m u s x) :
    Follows registry Paced m (Unbounded.note .round >>= fun _ => u) s w := by
  refine note_bind hmirrors rfl ?_ hnext
  rintro _ ⟨current, answered, later, rfl, hevents⟩
  exact .round hevents

/-- A call stands behind an answer. -/
theorem call {u : UnboundedM α} (hmirrors : s.Mirrors registry w)
    (hnext : ∀ x, s.Mirrors registry x → Follows registry Paced m u s x) :
    Follows registry Continues m (Unbounded.note .call >>= fun _ => u) s w :=
  note_bind hmirrors rfl (fun hevents _ hmore => .call hmore hevents) hnext

/-- **One request.**  Before the end of input, the lexer is asked on both sides alike. -/
theorem advance_bind (hreach : registry.Reachable) {f : Unit → ParserM β} {g : Unit → UnboundedM β}
    (hmirrors : s.Mirrors registry w) (hmore : s.current.token ≠ .endOfInput)
    (hnext : ∀ t x, t.Mirrors registry x → t.pending + 1 = s.pending →
      Follows registry Continues (f ()) (g ()) t x) :
    Follows registry Requested (Parser.advance >>= f) (Unbounded.advance registry >>= g) s w := by
  obtain ⟨steps, hsteps, hupcoming⟩ := hmirrors.upcoming hmore
  unfold Follows
  rw [run_bind, ParserM.run_bind, run_advance, hmirrors.current]
  rcases hanswer : w.cursor.next registry with ⟨answer, after⟩
  obtain ⟨hsame, hlater⟩ := LexemeStream.next_unfold hreach hsteps hanswer
  rw [← hupcoming] at hsame hlater
  rcases hstream : s.upcoming.next with ⟨answer', later⟩
  rw [hstream] at hsame hlater
  obtain rfl : answer' = answer := hsame
  have hcurrent : some s.current.token ≠ some Token.endOfInput := by simpa using hmore
  cases answer' with
  | error error =>
    have hrun : Parser.advance.run s =
        (.error (.lexical error), ⟨s.source, s.current, later, s.drawn + 1⟩) := by
      rw [ParserM.run_advance, hstream]
    rw [hrun]
    exact .error rfl ⟨_, false, [], rfl, .request hcurrent .done⟩ rfl
      (ParserState.pending_pos hmore)
  | ok lexeme =>
    have hrun : Parser.advance.run s = (.ok (), ⟨s.source, lexeme, later, s.drawn + 1⟩) := by
      rw [ParserM.run_advance, hstream]
    have hpending := Parser.pending_of_advance hrun hmore
    rw [hrun]
    have hsource : after.source = s.source := by
      have hafter := @Cursor.source_next registry w.cursor
      rwa [hanswer, hmirrors.source_eq] at hafter
    refine (hnext ⟨s.source, lexeme, later, s.drawn + 1⟩ _ ⟨hsource, rfl, hlater lexeme rfl⟩
      hpending).behind rfl (fun hevents => ⟨_, true, _, rfl, hevents _ hcurrent⟩) rfl ?_
    show 1 + (ParserState.mk s.source lexeme later (s.drawn + 1)).pending ≤ s.pending
    omega

theorem paced (hfollows : Follows registry Requested m u s w) : Follows registry Paced m u s w :=
  hfollows.mono fun ⟨_, _, _, _, hevents⟩ => hevents

theorem continues (hfollows : Follows registry Paced m u s w) :
    Follows registry Continues m u s w :=
  hfollows.mono Paced.continues

end Follows

end UnboundedM

end Reckoner
