import Holdfast.Lock.Attempt
import Holdfast.Lock.Release

namespace Holdfast.Lock

open Store

/-- Reading the value of a lock's key. -/
inductive Probe
  | reading (key : Bytes)
  | over (result : Except Failure (Option Bytes))
deriving Repr

namespace Probe

def call? : Probe → Option Call
  | .reading key => some (.get key)
  | .over _ => none

def resume (p : Probe) (o : Outcome) : Probe :=
  match p with
  | .reading _ => .over (o.bind Reply.asValue)
  | .over result => .over result

end Probe

/-- What a lock does on a connection, call by call. -/
inductive Talk
  | attempt (a : Attempt)
  | release (r : Release)
  | probe (p : Probe)
deriving Repr

namespace Talk

def call? : Talk → Option Call
  | attempt a => a.call?
  | release r => r.call?
  | probe p => p.call?

def resume (t : Talk) (m : Moment) (o : Outcome) : Talk :=
  match t with
  | attempt a => .attempt (a.resume m o)
  | release r => .release (r.resume o)
  | probe p => .probe (p.resume o)

/-- A connection on which a call failed is not used again. -/
def hasFailed : Talk → Bool
  | attempt { phase := .over (.error _), .. } => true
  | release { phase := .over (.error _), .. } => true
  | probe (.over (.error _)) => true
  | _ => false

def acquired : Talk → Except Failure (Option Handle)
  | attempt { phase := .over result, .. } => result
  | _ => .ok none

def released : Talk → Except Failure Bool
  | release { phase := .over result, .. } => result
  | _ => .ok false

def value : Talk → Except Failure (Option Bytes)
  | probe (.over result) => result
  | _ => .ok none

end Talk

/-- What a caller wants of a connection that it does not have yet. -/
inductive Aim
  | attempt (l : Lock)
  | release (h : Handle)
  | probe (key : Bytes)
deriving Repr

namespace Aim

/-- Begins the talk. An attempt has its first token from this moment. -/
def talk (m : Moment) : Aim → Talk
  | attempt l => .attempt (.start l m)
  | release h => .release { handle := h }
  | probe key => .probe (.reading key)

/-- Ends the talk before it began, where no connection could be had. -/
def refused (f : Failure) : Aim → Talk
  | attempt l => .attempt ⟨l, Attempt.maxRetries, .over (.error f)⟩
  | release h => .release { handle := h, phase := .over (.error f) }
  | probe _ => .probe (.over (.error f))

end Aim
end Holdfast.Lock
