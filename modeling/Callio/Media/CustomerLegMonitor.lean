import Mathlib.Data.List.Basic
import Mathlib.Tactic.Common

/-! `CustomerLegMonitor`: what the customer sends, seen from rtpengine's packet
counts, one poll after another. Times are milliseconds. -/

namespace Callio.CustomerLegMonitor

def dropWindowMs : Nat := 3000

/-- In the window. -/
def dropBelowPackets : Nat := 4

/-- A second. -/
def activeFromPackets : Nat := 3

def qualityMs : Nat := 4000

structure Sample where
  at_ : Nat
  packets : Nat
  deriving DecidableEq, Repr

/-- `waiting`: no audio yet. -/
inductive AudioState
  | waiting | active | drop
  deriving DecidableEq, Repr

/-- What a poll that was answered at `at_` learned. -/
structure Poll (Quality : Type) extends Sample where
  quality : Option Quality := none

inductive Emitted (Quality : Type)
  | state (s : AudioState)
  | quality (q : Quality)
  deriving DecidableEq, Repr

variable {Quality : Type}

/-! ## Readings -/

/-- A sample is at or beyond the window's start. -/
def Sample.old (now : Nat) (s : Sample) : Bool := dropWindowMs ≤ now - s.at_

/-- `perSecond >= ACTIVE_FROM_PACKETS`, since the sample before. -/
def resumes (prev : Option Sample) (s : Sample) : Bool :=
  prev.any fun prev => activeFromPackets * max 1 (s.at_ - prev.at_) ≤ (s.packets - prev.packets) * 1000

/-- Too few packets since the window's start, which is full. -/
def stops (first : Option Sample) (s : Sample) : Bool :=
  first.any fun first => first.old s.at_ && s.packets - first.packets < dropBelowPackets

/-- The state after a sample, and what is emitted of it. -/
def judge (state : AudioState) (prev first : Option Sample) (s : Sample) : AudioState × List (Emitted Quality) :=
  if state ≠ .active ∧ resumes prev s = true then
    if state = .drop then (.active, [.state .active]) else (.active, [])
  else if state = .active ∧ stops first s = true then (.drop, [.state .drop])
  else (state, [])

/-! ## The monitor -/

structure Monitor where
  /-- Oldest first. -/
  samples : List Sample := []
  state : AudioState := .waiting
  qualityAt : Nat := 0
  stopped : Bool := false
  deriving DecidableEq, Repr

/-- Keeps one sample at or beyond the window's start. -/
def trim (now : Nat) : List Sample → List Sample
  | s₀ :: s₁ :: s₂ :: rest => if s₁.old now then trim now (s₁ :: s₂ :: rest) else s₀ :: s₁ :: s₂ :: rest
  | samples => samples

/-- The sample before the newest. -/
def previous (samples : List Sample) : Option Sample := samples.dropLast.getLast?

def Monitor.qualityDue (m : Monitor) (now : Nat) : Bool := qualityMs ≤ now - m.qualityAt

/-- The RTCP report of a leg that sends, every few seconds. -/
def reportQuality (m : Monitor) (p : Poll Quality) : Monitor × List (Emitted Quality) :=
  match p.quality with
  | some quality =>
    if m.state = .active ∧ m.qualityDue p.at_ = true then ({ m with qualityAt := p.at_ }, [.quality quality])
    else (m, [])
  | none => (m, [])

/-- `_poll`, once rtpengine has answered. -/
def Monitor.poll (m : Monitor) (p : Poll Quality) : Monitor × List (Emitted Quality) :=
  if m.stopped then (m, [])
  else
    let samples := trim p.at_ (m.samples ++ [p.toSample])
    let (state, changed) := judge m.state (previous samples) samples.head? p.toSample
    let (m, reported) := reportQuality { m with samples, state } p
    (m, changed ++ reported)

/-- The polls one after another: the monitor then, and all it emitted. -/
def run (polls : List (Poll Quality)) : Monitor × List (Emitted Quality) :=
  polls.foldl (fun (m, emitted) p => ((m.poll p).1, emitted ++ (m.poll p).2)) ({}, [])

end Callio.CustomerLegMonitor
