import ExecutionControl.Coordination.Call
import ExecutionControl.Durable.Call
import ExecutionControl.Event

/-! # Programs

    An operation of this library is a program: a tree whose nodes are requests to the
    services around it and whose branches are the replies. The same program can be run
    from start to end, with chosen requests failing, or one request at a time between
    the requests of other programs.

    `run_bind` says that a program runs a part of it first and the rest after.
-/

namespace ExecutionControl

/-! ### Requests -/

/-- One request to the services around an operation. -/
inductive Request where
  /-- A call to the coordination store. -/
  | coord (call : CoordCall)
  /-- A call to the table of custom limits. -/
  | limits (call : LimitCall)
  /-- A call to the table of file records. -/
  | files (call : FileCall)
  /-- Read the monotonic clock. -/
  | clock
  /-- Wait. -/
  | sleep (span : Duration)
  /-- Read the wall clock. -/
  | time
  /-- Draw a token that nobody else holds. -/
  | token
  /-- Tell operators of an event. -/
  | report (event : Event)
  /-- End with an overflow. -/
  | stop (overflow : Overflow)

/-- What a request is answered with. -/
abbrev Request.Reply : Request → Type
  | .coord call => Except CoordError call.Result
  | .limits call => Except StoreError call.Result
  | .files call => Except StoreError call.Result
  | .clock => Moment
  | .sleep _ => Unit
  | .time => Timestamp
  | .token => String
  | .report _ => Unit
  | .stop _ => Empty

/-! ### Programs -/

/-- A program that ends with a value of type `α`. -/
inductive Program (α : Type) where
  /-- The program is over. -/
  | done (a : α)
  /-- Make a request and go on with its reply. -/
  | ask (request : Request) (next : request.Reply → Program α)

namespace Program

variable {α β γ σ : Type}

/-- Run one program and then another that is chosen by its value. -/
def bind : Program α → (α → Program β) → Program β
  | .done a, f => f a
  | .ask request next, f => .ask request fun reply => (next reply).bind f

instance : Monad Program where
  pure := .done
  bind := bind

@[simp] theorem done_bind (a : α) (f : α → Program β) : (Program.done a).bind f = f a := rfl

@[simp] theorem ask_bind (request : Request) (next : request.Reply → Program α)
    (f : α → Program β) :
    (Program.ask request next).bind f = .ask request fun reply => (next reply).bind f := rfl

@[simp] theorem bind_done (p : Program α) : p.bind .done = p := by
  induction p with
  | done a => rfl
  | ask request next ih => simp [ih]

theorem bind_assoc (p : Program α) (f : α → Program β) (g : β → Program γ) :
    (p.bind f).bind g = p.bind fun a => (f a).bind g := by
  induction p with
  | done a => rfl
  | ask request next ih => simp [ih]

instance : LawfulMonad Program :=
  LawfulMonad.mk' Program bind_done (fun _ _ => rfl) bind_assoc

/-! ### Single requests -/

/-- Make one request. -/
def request (r : Request) : Program r.Reply := .ask r .done

/-- Call the coordination store. -/
def coord (call : CoordCall) : Program (Except CoordError call.Result) := request (.coord call)

/-- Call the table of custom limits. -/
def limits (call : LimitCall) : Program (Except StoreError call.Result) := request (.limits call)

/-- Call the table of file records. -/
def files (call : FileCall) : Program (Except StoreError call.Result) := request (.files call)

/-- Read the monotonic clock. -/
def clock : Program Moment := request .clock

/-- Wait. -/
def sleep (span : Duration) : Program Unit := request (.sleep span)

/-- Read the wall clock. -/
def time : Program Timestamp := request .time

/-- Draw a token that nobody else holds. -/
def token : Program String := request .token

/-- Tell operators of an event. -/
def report (event : Event) : Program Unit := request (.report event)

/-- End with an overflow. -/
def stop (overflow : Overflow) : Program α := .ask (.stop overflow) Empty.elim

/-- Go on with a value, unless it has overflowed. -/
def ofChecked : Checked α → Program α
  | .ok a => .done a
  | .error overflow => stop overflow

/-! ### Running -/

/-- The services that answer requests, as a state that each request changes. A request
    that overflows ends the program. -/
abbrev Services (σ : Type) := (r : Request) → σ → Checked r.Reply × σ

/-- Run a program from start to end. Gives back its value, or the overflow that ended
    it, and the state that it left. -/
def run (serve : Services σ) : Program α → σ → Checked α × σ
  | .done a, s => (.ok a, s)
  | .ask request next, s =>
    match serve request s with
    | (.error e, s) => (.error e, s)
    | (.ok reply, s) => run serve (next reply) s

@[simp] theorem run_done (serve : Services σ) (a : α) (s : σ) :
    run serve (.done a) s = (.ok a, s) := rfl

@[simp] theorem run_ask (serve : Services σ) (request : Request)
    (next : request.Reply → Program α) (s : σ) :
    run serve (.ask request next) s =
      match serve request s with
      | (.error e, s) => (.error e, s)
      | (.ok reply, s) => run serve (next reply) s := by
  rw [run]

theorem run_bind (serve : Services σ) (p : Program α) (f : α → Program β) (s : σ) :
    run serve (p.bind f) s =
      match run serve p s with
      | (.ok a, s) => run serve (f a) s
      | (.error e, s) => (.error e, s) := by
  induction p generalizing s with
  | done a => rfl
  | ask request next ih =>
    simp only [ask_bind, run_ask]
    match serve request s with
    | (.error e, s) => rfl
    | (.ok reply, s) => exact ih reply s

end Program

end ExecutionControl
