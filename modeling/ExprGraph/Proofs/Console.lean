import ExprGraph.Log
import Mathlib.Data.List.Induction
/-!
  What reaches the console.

  Main statement: after any history of calls, a message is recorded on the console, once, when the level in
  force admits it and the logger in use was made at another level than `silent`; otherwise nothing is recorded
  (`Log.console_say_after`).

  The level in force is the one that was last configured or set.  Setting it does not make a logger where
  there is one, so the two levels may differ: once silence was configured no level set later brings the
  console back (`Log.console_lost`), whereas a logger made at another level may be silenced for a while.

    * state      the logger in use;
    * step       each call changes the two levels as it changes the logger (`Log.Follows.call`);
    * induction  over the history, the latest call last (`Log.follows_after`).
-/

namespace ExprGraph

namespace Log

/-- What is called on the log. -/
inductive Call where
  | configure (level : LogLevel) (file : Option String)
  | setLevel (level : LogLevel)
  /-- asks for the logger, which is made where there is none -/
  | use
  | say (m : Message)

namespace Call

/-- The level that a call configures. -/
def configured? : Call → Option LogLevel
  | configure level _ => some level
  | setLevel _ | use | say _ => none

/-- The level that a call puts into force. -/
def level? : Call → Option LogLevel
  | configure level _ | setLevel level => some level
  | use | say _ => none

end Call

/-- The log after one more call. -/
def call (l : Log) : Call → Log
  | .configure level file => l.configure level file
  | .setLevel level => l.setLevel level
  | .use => l.ensure
  | .say m => l.say m

/-- **The log after a history of calls**, with no logger before them. -/
def after (calls : List Call) : Log := calls.foldl call .empty

/-- **The level in force**: the one last configured or set. -/
def inForce (calls : List Call) : LogLevel := (calls.reverse.findSome? Call.level?).getD .moderate

/-- **The level at which the logger in use was made**: the one last configured, and without any configuration
    that of the first call. -/
def madeAt (calls : List Call) : LogLevel :=
  (calls.reverse.findSome? Call.configured? <|> calls.head?.bind Call.level?).getD .moderate

/-! ## One more call -/

variable (calls : List Call) (c : Call)

theorem inForce_append : inForce (calls ++ [c]) = c.level?.getD (inForce calls) := by
  rw [inForce, List.reverse_concat, List.findSome?_cons]
  cases c.level? <;> rfl

/-- A call other than a configuration makes a logger only as the first one. -/
theorem madeAt_append : madeAt (calls ++ [c])
    = c.configured?.getD (if calls.isEmpty then c.level?.getD .moderate else madeAt calls) := by
  rw [madeAt, List.reverse_concat, List.findSome?_cons]
  cases c.configured? with
  | some level => rfl
  | none => cases calls <;> rfl

/-- **The log follows a history**: there is a logger after the first call, at the level in force, and with a
    console unless it was made at `silent`. -/
structure Follows (l : Log) (calls : List Call) : Prop where
  logger : l.logger = none ↔ calls = []
  level : l.current.level = inForce calls
  console : l.current.console = (madeAt calls != .silent)

variable {calls c} {l l' : Log}

theorem follows_empty : Follows .empty [] := ⟨⟨fun _ => rfl, fun _ => rfl⟩, rfl, rfl⟩

/-- A call leaves a logger. -/
theorem logger_iff {g : Logger} (hl : l'.logger = some g) : l'.logger = none ↔ calls ++ [c] = [] := by
  rw [hl]
  exact iff_of_false (Option.some_ne_none g) (List.concat_ne_nil c calls)

/-- A call that asks for the logger keeps it, or makes the one that stood in for it. -/
theorem Follows.keep (h : l.Follows calls) (hlevel : c.level? = none) (hconfigured : c.configured? = none)
    (hl : l'.logger = some l.current) : l'.Follows (calls ++ [c]) where
  logger := logger_iff hl
  level := by
    rw [current, hl, inForce_append, hlevel]
    exact h.level
  console := by
    rw [current, hl, madeAt_append, hlevel, hconfigured]
    refine h.console.trans ?_
    cases calls <;> rfl

theorem logger_say (l : Log) (m : Message) : (l.say m).logger = some l.current := by
  rw [say]
  split <;> rfl

/-- **Each call keeps the log following.** -/
theorem Follows.call (h : l.Follows calls) : (l.call c).Follows (calls ++ [c]) := by
  cases c with
  | configure level file =>
    refine ⟨logger_iff rfl, ?_, ?_⟩
    · rw [inForce_append]
      rfl
    · rw [madeAt_append]
      rfl
  | setLevel level =>
    have hstep : l.call (.setLevel level) = l.setLevel level := rfl
    rw [hstep, setLevel]
    cases hl : l.logger with
    | none =>
      obtain rfl := h.logger.mp hl
      exact ⟨logger_iff rfl, rfl, rfl⟩
    | some g =>
      have hconsole := h.console
      rw [current, hl] at hconsole
      have hne : calls.isEmpty = false := by
        rw [List.isEmpty_eq_false_iff]
        intro hnil
        rw [h.logger.mpr hnil] at hl
        cases hl
      refine ⟨logger_iff rfl, ?_, ?_⟩
      · rw [inForce_append]
        rfl
      · rw [madeAt_append, hne]
        exact hconsole
  | use => exact h.keep rfl rfl rfl
  | say m => exact h.keep rfl rfl (logger_say l m)

/-! ## Histories -/

/-- **The log follows every history.** -/
theorem follows_after (calls : List Call) : (after calls).Follows calls := by
  induction calls using List.reverseRecOn with
  | nil => exact follows_empty
  | append_singleton calls c ih =>
    rw [after, List.foldl_append]
    exact ih.call

/-- What a message does to the console. -/
theorem console_say (l : Log) (m : Message) :
    (l.say m).console
      = (if l.current.level.admits m = true ∧ l.current.console = true then [m.record] else [])
        ++ l.console := by
  have hcurrent : l.ensure.current = l.current := rfl
  unfold say
  simp only [hcurrent]
  cases l.current.level.admits m <;> cases l.current.console <;> rfl

/-- **What reaches the console.**  After any history a message is recorded exactly once when the level in
    force admits it and the logger was not made at `silent`, and otherwise it leaves the console as it was. -/
theorem console_say_after (calls : List Call) (m : Message) :
    ((after calls).say m).console
      = (if (inForce calls).admits m = true ∧ madeAt calls ≠ .silent then [m.record] else [])
        ++ (after calls).console := by
  have h := follows_after calls
  rw [console_say, h.level, h.console]
  simp only [bne_iff_ne]

/-- **Silence outlasts its level.**  A message is lost at a level that admits it when silence was configured
    before; a logger that was only silenced for a while records it. -/
theorem console_lost :
    (inForce [.configure .silent none, .setLevel .verbose]).admits (.info "ready" .moderate) = true
      ∧ ((after [.configure .silent none, .setLevel .verbose]).say (.info "ready" .moderate)).console = []
      ∧ ((after [.configure .verbose none, .setLevel .silent, .setLevel .verbose]).say
        (.info "ready" .moderate)).console = [⟨"INFO", "ready"⟩] := by
  decide

end Log

end ExprGraph
