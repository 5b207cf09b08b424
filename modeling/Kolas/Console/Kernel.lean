import Mathlib.Logic.Function.Basic

/-!
# The console kernel

`console/args.rs` and, of `console/kernel.rs`, what the scheduler uses: `dispatch`
and `has_command`.  The code of a command is a `κ`, and `execute` what running it
comes to.

`dispatch_unknown_iff`: a dispatch finds no command exactly when `has_command`
says so.
-/

namespace Kolas.Console

/-! ### Arguments -/

/-- `str::split_once('=')`. -/
def splitOnceEq (s : List Char) : Option (String × String) :=
  match s.dropWhile (· ≠ '=') with
  | [] => none
  | _ :: rest => some (String.ofList (s.takeWhile (· ≠ '=')), String.ofList rest)

structure Args where
  positional : List String
  named : String → Option (Option String)

/-- One iteration of `Args::parse`. -/
def Args.add (args : Args) (arg : String) : Args :=
  match arg.toList with
  | '-' :: '-' :: rest =>
    match splitOnceEq rest with
    | some (key, value) =>
      { args with named := Function.update args.named key (some (some value)) }
    | none => { args with named := Function.update args.named (String.ofList rest) (some none) }
  | _ => { args with positional := args.positional ++ [arg] }

def Args.parse (raw : List String) : Args := raw.foldl Args.add ⟨[], fun _ => none⟩

/-! ### Commands -/

structure Command (κ : Type) where
  name : String
  code : κ

structure ConsoleKernel (κ : Type) where
  commands : List (Command κ)

/-- What `dispatch` fails with: its own error, or that of the command. -/
inductive ConsoleError
  | unknownCommand (name : String)
  | command (message : String)
  deriving DecidableEq, Repr

/-- The error's text. -/
def ConsoleError.text : ConsoleError → String
  | .unknownCommand name => "unknown command: " ++ name
  | .command message => message

namespace ConsoleKernel

variable {κ : Type} (kernel : ConsoleKernel κ) (execute : κ → Args → Except String Unit)

/-- The loop of `dispatch`. -/
def dispatchIn : List (Command κ) → String → Args → Except ConsoleError Unit
  | [], name, _ => .error (.unknownCommand name)
  | cmd :: commands, name, args =>
    if cmd.name = name then (execute cmd.code args).mapError .command
    else dispatchIn commands name args

def dispatch (name : String) (args : Args) : Except ConsoleError Unit :=
  dispatchIn execute kernel.commands name args

def hasCommand (name : String) : Bool := kernel.commands.any fun cmd => cmd.name = name

variable {execute}

theorem command_ne_unknown {code : κ} {args : Args} {n : String} :
    (execute code args).mapError ConsoleError.command ≠ .error (.unknownCommand n) := by
  intro h
  cases hrun : execute code args with
  | error message =>
    rw [hrun] at h
    have herror : ConsoleError.command message = .unknownCommand n := Except.error.inj h
    cases herror
  | ok done =>
    rw [hrun] at h
    have hok : (Except.ok done : Except ConsoleError Unit) = .error (.unknownCommand n) := h
    cases hok

/-- **Dispatch and `has_command` agree.** -/
theorem dispatch_unknown_iff {name n : String} {args : Args} :
    kernel.dispatch execute name args = .error (.unknownCommand n) ↔
      n = name ∧ kernel.hasCommand name = false := by
  unfold dispatch hasCommand
  induction kernel.commands with
  | nil => simp [dispatchIn, eq_comm]
  | cons cmd commands ih =>
    rw [dispatchIn, List.any_cons]
    by_cases hname : cmd.name = name
    · rw [if_pos hname, decide_eq_true hname]
      simp [command_ne_unknown]
    · rw [if_neg hname, ih, decide_eq_false hname, Bool.false_or]

end ConsoleKernel

example : (Args.parse ["report", "--limit=-10", "--force"]).named "limit" = some (some "-10") := by
  decide

end Kolas.Console
