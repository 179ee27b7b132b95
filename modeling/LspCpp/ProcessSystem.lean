import LspCpp.LibTransition
import Mathlib.Data.List.Perm.Basic

/-! The child processes of a program, each started and stopped through a `Process`, with the pipe ends that this process
and its children hold. The members of a `Process` are run by system calls, and those of several objects, on as many
threads, by turns. An end is named by its pipe, as the system may give out the number of a closed descriptor again. -/

namespace LspCpp

structure PipeEnd where
  pipe : Nat
  writes : Bool
  deriving DecidableEq, Repr

/-- The two descriptors that `pipe` makes, in the order in which they are closed. -/
def PipeEnd.both (pipe : Nat) : List PipeEnd := [⟨pipe, false⟩, ⟨pipe, true⟩]

/-- Before `execvp`, executing a program, or ended; `reaped` when it has been waited for. -/
inductive ChildPhase where
  | forked
  | executing
  | zombie
  | reaped
  deriving DecidableEq, Repr

/-- A child with the pipes that were made for it and the ends that it holds. `error` is what it has written into its
error pipe since `execvp` failed. -/
structure Child where
  inPipe : Nat
  outPipe : Nat
  errPipe : Nat
  ends : List PipeEnd
  phase : ChildPhase := .forked
  error : Option Nat := none
  deriving DecidableEq, Repr

/-- What runs on a `Process`; `terminateDestroy` is the call of `terminate` in the destructor and in the assignment. -/
inductive ProcessOp where
  | isRunning
  | wait
  | terminate
  | destroy
  | terminateDestroy
  deriving DecidableEq, Repr

/-- What the constructor does behind a row of `close`. -/
inductive AfterClose where
  | throws (error : Nat)
  | reads (inPipe outPipe errPipe : Nat)
  | streams (inPipe outPipe : Nat)
  | reaps (error : Nat)
  deriving DecidableEq, Repr

/-- Where an `Impl` is: the next system call of its constructor, of `checkRunning`, or of `wait` and `terminate`. -/
inductive ImplPhase where
  | piping (pipes : List Nat)
  | closing (ends : List PipeEnd) (next : AfterClose)
  | reading (inPipe outPipe errPipe : Nat)
  | reaping (error : Nat)
  | threw (error : Nat)
  | idle
  | checking (op : ProcessOp)
  | closingInput (op : ProcessOp)
  | closingOutput (op : ProcessOp)
  | killing (op : ProcessOp)
  | waiting (op : ProcessOp)
  | destroyed
  deriving DecidableEq, Repr

/-- `Process::Impl`, with the descriptors of its two streams; `none` is -1. -/
structure Impl where
  pid : Option Nat := none
  inputFd : Option PipeEnd := none
  outputFd : Option PipeEnd := none
  phase : ImplPhase
  deriving DecidableEq, Repr

/-- How a system call ends. -/
inductive CallResult where
  | ok
  | failed (error : Nat)
  | interrupted
  deriving DecidableEq, Repr

/-- `opened` are the ends that this process holds. `strays` counts the calls of `close` for a descriptor that is not
open and the calls of `kill` and `waitpid` for a process that is no child any more; `abandoned` are the children whose
`waitpid` was interrupted. -/
structure Processes where
  nextPipe : Nat := 0
  opened : List PipeEnd := []
  children : List Child := []
  impls : List Impl := []
  strays : Nat := 0
  abandoned : List Nat := []
  deriving DecidableEq, Repr

inductive ProcessAction where
  | start
  | call (p : Nat) (result : CallResult)
  | begin (p : Nat) (op : ProcessOp)
  | childExecs (pid : Nat)
  | childFails (pid : Nat) (error : Nat)
  | childCloses (pid : Nat) (fd : PipeEnd)
  | childExits (pid : Nat)
  deriving DecidableEq, Repr

/-- The phase behind an operation. -/
def ProcessOp.finished : ProcessOp → ImplPhase
  | .isRunning | .wait | .terminate => .idle
  | .destroy | .terminateDestroy => .destroyed

/-- `checkRunning` has found the child running. -/
def ProcessOp.running : ProcessOp → ImplPhase
  | .isRunning => .idle
  | .destroy => .checking .terminateDestroy
  | op => .closingInput op

/-- What a child does between `fork` and `execvp`, of which no other process sees a part. Its two standard streams are
ends of its pipes, and the system closes the end of the error pipe. -/
def Child.execs (child : Child) : Child :=
  { child with
    ends := (child.ends.filter fun fd => fd.pipe ∉ [child.inPipe, child.outPipe, child.errPipe]) ++
      [⟨child.inPipe, false⟩, ⟨child.outPipe, true⟩]
    phase := .executing }

namespace Processes

def setImpl (s : Processes) (p : Nat) (impl : Impl) : Processes := { s with impls := s.impls.set p impl }

/-- `::close`. -/
def close (s : Processes) (fd : PipeEnd) : Processes :=
  if fd ∈ s.opened then { s with opened := s.opened.erase fd } else { s with strays := s.strays + 1 }

/-- `pipe_istream::close` and `pipe_ostream::close`. -/
def closeStream (s : Processes) : Option PipeEnd → Processes
  | none => s
  | some fd => s.close fd

/-- This process has a child under the number, which may have ended. -/
def isChild (s : Processes) (pid : Nat) : Bool :=
  match s.children[pid]? with
  | some child => child.phase ≠ .reaped
  | none => false

def hasEnded (s : Processes) (pid : Nat) : Bool :=
  match s.children[pid]? with
  | some child => child.phase = .zombie
  | none => false

/-- An ended child is waited for. -/
def reap (s : Processes) (pid : Nat) : Processes :=
  { s with children := s.children.modify pid fun child => { child with phase := .reaped } }

/-- `kill` and `waitpid` are given a number that belongs to no child. -/
def strayUnless (s : Processes) (pid : Nat) : Processes :=
  if s.isChild pid then s else { s with strays := s.strays + 1 }

/-- `waitpid` with no option, which returns when the child has ended or, without it, when a signal comes. -/
def waitpid (s : Processes) (pid : Nat) : CallResult → Option Processes
  | .ok => if s.isChild pid then if s.hasEnded pid then some (s.reap pid) else none
      else some { s with strays := s.strays + 1 }
  | .interrupted => some { s with abandoned := pid :: s.abandoned }
  | .failed _ => none

/-- The child that `fork` makes holds what this process holds. -/
def fork (s : Processes) (inPipe outPipe errPipe : Nat) : Processes :=
  { s with children := s.children ++ [⟨inPipe, outPipe, errPipe, s.opened, .forked, none⟩] }

/-- Nobody holds an end of the pipe for writing, so that a reader finds its end. -/
def atEnd (s : Processes) (pipe : Nat) : Bool :=
  ⟨pipe, true⟩ ∉ s.opened ∧ ∀ child ∈ s.children, ⟨pipe, true⟩ ∉ child.ends

/-- `read` from the error pipe. -/
def readError (s : Processes) (pid errPipe : Nat) : CallResult → Option (Option Nat)
  | .ok =>
      match s.children[pid]?.bind Child.error with
      | some error => some (some error)
      | none => if s.atEnd errPipe then some none else none
  | .interrupted | .failed _ => some none

/-- A system call of the constructor. -/
def constructStep (s : Processes) (p : Nat) (impl : Impl) (result : CallResult) : Option Processes :=
  match impl.phase, result with
  | .piping [inPipe, outPipe, errPipe], .ok =>
      some ((s.fork inPipe outPipe errPipe).setImpl p
        { impl with
          pid := some s.children.length
          phase := .closing [⟨inPipe, false⟩, ⟨outPipe, true⟩, ⟨errPipe, true⟩] (.reads inPipe outPipe errPipe) })
  | .piping pipes, .ok =>
      some ({ s with nextPipe := s.nextPipe + 1, opened := s.opened ++ PipeEnd.both s.nextPipe }.setImpl p
        { impl with phase := .piping (pipes ++ [s.nextPipe]) })
  | .piping pipes, .failed error =>
      some (s.setImpl p { impl with phase := .closing (pipes.flatMap PipeEnd.both) (.throws error) })
  | .closing (fd :: rest) next, .ok => some ((s.close fd).setImpl p { impl with phase := .closing rest next })
  | .closing [] (.throws error), .ok => some (s.setImpl p { impl with phase := .threw error })
  | .closing [] (.reads inPipe outPipe errPipe), .ok =>
      some (s.setImpl p { impl with phase := .reading inPipe outPipe errPipe })
  | .closing [] (.streams inPipe outPipe), .ok =>
      some (s.setImpl p
        { impl with inputFd := some ⟨outPipe, false⟩, outputFd := some ⟨inPipe, true⟩, phase := .idle })
  | .closing [] (.reaps error), .ok => some (s.setImpl p { impl with phase := .reaping error })
  | .reading inPipe outPipe errPipe, result =>
      impl.pid.bind fun pid =>
        (s.readError pid errPipe result).map fun
          | some error =>
              s.setImpl p { impl with
                phase := .closing [⟨errPipe, false⟩, ⟨inPipe, true⟩, ⟨outPipe, false⟩] (.reaps error) }
          | none => s.setImpl p { impl with phase := .closing [⟨errPipe, false⟩] (.streams inPipe outPipe) }
  | .reaping error, result =>
      impl.pid.bind fun pid =>
        (s.waitpid pid result).map fun s => s.setImpl p { impl with pid := none, phase := .threw error }
  | _, _ => none

/-- A system call of an operation on a process that has been constructed. -/
def operateStep (s : Processes) (p : Nat) (impl : Impl) (result : CallResult) : Option Processes :=
  match impl.phase, result with
  | .checking op, .ok =>
      match impl.pid with
      | none => some (s.setImpl p { impl with phase := op.finished })
      | some pid =>
          if s.isChild pid ∧ !s.hasEnded pid then some (s.setImpl p { impl with phase := op.running })
          else some (((s.strayUnless pid).reap pid).setImpl p { impl with pid := none, phase := .closingInput op })
  | .closingInput op, .ok =>
      some ((s.closeStream impl.inputFd).setImpl p { impl with inputFd := none, phase := .closingOutput op })
  | .closingOutput op, .ok =>
      some ((s.closeStream impl.outputFd).setImpl p
        { impl with
          outputFd := none
          phase := if impl.pid = none then op.finished else if op = .wait then .waiting op else .killing op })
  | .killing op, .ok =>
      impl.pid.map fun pid => (s.strayUnless pid).setImpl p { impl with phase := .waiting op }
  | .waiting op, result =>
      impl.pid.bind fun pid =>
        (s.waitpid pid result).map fun s => s.setImpl p { impl with pid := none, phase := op.finished }
  | _, _ => none

def childStep (s : Processes) (pid : Nat) (ok : Child → Bool) (f : Child → Child) : Option Processes :=
  s.children[pid]?.bind fun child =>
    if ok child then some { s with children := s.children.set pid (f child) } else none

def step : ProcessAction → Processes → Option Processes
  | .start, s => some { s with impls := s.impls ++ [{ phase := .piping [] }] }
  | .call p result, s =>
      s.impls[p]?.bind fun impl =>
        match s.constructStep p impl result with
        | some s' => some s'
        | none => s.operateStep p impl result
  | .begin p op, s =>
      s.impls[p]?.bind fun impl =>
        if impl.phase = .idle ∧ op ≠ .terminateDestroy then
          some (s.setImpl p { impl with phase := .checking op })
        else none
  | .childExecs pid, s => s.childStep pid (fun child => child.phase = .forked ∧ child.error = none) Child.execs
  | .childFails pid error, s =>
      s.childStep pid (fun child => child.phase = .forked ∧ child.error = none) fun child =>
        { child with error := some error }
  | .childCloses pid fd, s =>
      s.childStep pid (fun child => child.phase = .executing) fun child => { child with ends := child.ends.erase fd }
  | .childExits pid, s =>
      s.childStep pid (fun child => child.phase = .forked ∨ child.phase = .executing) fun child =>
        { child with ends := [], phase := .zombie }

end Processes

def processSystem : Transition.System Processes ProcessAction where
  init s := s = {}
  step := Processes.step

end LspCpp
