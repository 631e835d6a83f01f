import RunPlan.Workflow.Basic
import RunPlan.Number.Numeral

/-!
# Evaluation and checkpoint schedules

Episodes are numbered from one. An interval `n` selects the multiples of `n`; a list
selects its members; a list of one episode `[n]` is read as the interval `n`. A plan
fixes the range of episodes of a run and says of each whether it is followed by an
evaluation or a checkpoint.

A range can hold `2 ^ 32` episodes, so every enumeration takes a limit and produces at
most that many elements; `multiples`, `steps`, `events` and so on are the enumerations
that run to the end.
-/

namespace RunPlan

/-- One more than the largest episode number: no enumeration is longer. -/
def episodeLimit : Nat :=
  2 ^ 32

/-- Inserts an episode in an ascending list, unless it is there. -/
def insertEpisode (x : UInt32) : List UInt32 → List UInt32
  | [] => [x]
  | y :: ys =>
    if x < y then x :: y :: ys
    else if x = y then y :: ys
    else y :: insertEpisode x ys

/-- The members of a list in ascending order, each once. -/
def ascending (list : List UInt32) : List UInt32 :=
  list.foldr insertEpisode []

/-- Binary search in an ascending list. The fuel bounds the number of halvings. -/
def searchEpisode (x : UInt32) : Nat → List UInt32 → Bool
  | 0, _ => false
  | fuel + 1, list =>
    let middle := list.length / 2
    match list.drop middle with
    | [] => false
    | y :: above =>
      if x = y then true
      else if x < y then searchEpisode x fuel (list.take middle)
      else searchEpisode x fuel above

/-- The numbers `current`, `current + n`, ... up to `last`, at most `limit` of them. -/
def progression (n last : Nat) : Nat → Nat → List UInt32
  | 0, _ => []
  | limit + 1, current =>
    if current ≤ last then UInt32.ofNat current :: progression n last limit (current + n)
    else []

/-- The least multiple of a positive `n` that is not below `first` nor zero. -/
def firstMultiple (n first : Nat) : Nat :=
  (max first 1 + (n - 1)) / n * n

/-- The first multiples of `n` from `first` to `last`; none for `n = 0`. -/
def firstMultiples (limit : Nat) (n first last : UInt32) : List UInt32 :=
  if n = 0 then []
  else progression n.toNat last.toNat limit (firstMultiple n.toNat first.toNat)

/-- All multiples of `n` from `first` to `last`. -/
def multiples (n first last : UInt32) : List UInt32 :=
  firstMultiples episodeLimit n first last

/-- Whether a positive `n` divides a positive episode. -/
def isMultiple (n episode : UInt32) : Bool :=
  0 < episode && 0 < n && episode % n == 0

namespace EvalSchedule

/-- The canonical form: a list of one is an interval, any other list is ascending
without repeats. -/
def normalized : EvalSchedule → EvalSchedule
  | interval n => .interval n
  | episodes [n] => .interval n
  | episodes list => .episodes (ascending list)

/-- Whether a schedule in canonical form selects an episode. -/
def selects (s : EvalSchedule) (episode : UInt32) : Bool :=
  match s with
  | interval n => isMultiple n episode
  | episodes list => 0 < episode && searchEpisode episode list.length list

/-- Whether evaluation runs after an episode. -/
def isEvalEpisode (s : EvalSchedule) (episode : UInt32) : Bool :=
  s.normalized.selects episode

/-- The first episodes that a schedule in canonical form selects from `first` to
`last`. -/
def firstBetween (limit : Nat) (s : EvalSchedule) (first last : UInt32) : List UInt32 :=
  match s with
  | interval n => firstMultiples limit n first last
  | episodes list => (list.filter fun e => max first 1 ≤ e && e ≤ last).take limit

/-- The first evaluations of a run of `count` episodes. -/
def firstEpisodes (limit : Nat) (s : EvalSchedule) (count : UInt32) : List UInt32 :=
  s.normalized.firstBetween limit 1 count

/-- The evaluations of a run of `count` episodes, in order. -/
def episodesWithin (s : EvalSchedule) (count : UInt32) : List UInt32 :=
  match s.normalized with
  | interval n => multiples n 1 count
  | episodes list => list.filter fun e => 1 ≤ e && e ≤ count

/-- The canonical form as a runner reads it: numbers separated by blanks. -/
def envValue (s : EvalSchedule) : String :=
  match s.normalized with
  | interval n => Numeral.ofNat n.toNat
  | episodes list => Text.join " " (list.map fun e => Numeral.ofNat e.toNat)

/-- The schedule in words. -/
def describe (s : Option EvalSchedule) : String :=
  match s.map normalized with
  | none => "disabled"
  | some (interval n) =>
    if n = 1 then "every episode" else "every " ++ Numeral.ofNat n.toNat ++ " episodes"
  | some (episodes list) =>
    "episodes " ++ Text.join ", " (list.map fun e => Numeral.ofNat e.toNat)

end EvalSchedule

/-- Whether a checkpoint is written after an episode. -/
def Checkpointing.isCheckpointEpisode (c : Checkpointing) (episode : UInt32) : Bool :=
  isMultiple c.interval episode

/-- What follows one episode. -/
structure EpisodeStep where
  episode : UInt32
  evaluate : Bool
  checkpoint : Bool
deriving DecidableEq, Repr, Inhabited

/-- Whether anything follows the episode. -/
def EpisodeStep.isEvent (s : EpisodeStep) : Bool :=
  s.evaluate || s.checkpoint

/-- The episodes of a bounded run. -/
structure EpisodePlan where
  /-- The first episode to run, later than one when resuming. -/
  firstEpisode : UInt32
  lastEpisode : UInt32
  maxSteps : Option UInt32
  /-- The evaluations, in canonical form. -/
  evalSchedule : Option EvalSchedule
  checkpointInterval : Option UInt32
deriving DecidableEq, Repr, Inhabited

/-- Merges two ascending lists; an episode at the front of both is taken once. -/
def mergeEpisodes : List UInt32 → List UInt32 → List UInt32
  | [], ys => ys
  | xs, [] => xs
  | x :: xs, y :: ys =>
    if x < y then x :: mergeEpisodes xs (y :: ys)
    else if y < x then y :: mergeEpisodes (x :: xs) ys
    else x :: mergeEpisodes xs ys
termination_by xs ys => xs.length + ys.length

namespace EpisodePlan

/-- The number of episodes. -/
def len (p : EpisodePlan) : Nat :=
  p.lastEpisode.toNat + 1 - p.firstEpisode.toNat

/-- Whether there is nothing to run. -/
def isEmpty (p : EpisodePlan) : Bool :=
  p.len == 0

/-- What follows an episode. -/
def step (p : EpisodePlan) (episode : UInt32) : EpisodeStep where
  episode := episode
  evaluate := p.evalSchedule.any (·.selects episode)
  checkpoint := p.checkpointInterval.any (isMultiple · episode)

/-- The first episodes of the run. -/
def firstSteps (limit : Nat) (p : EpisodePlan) : List EpisodeStep :=
  (progression 1 p.lastEpisode.toNat limit p.firstEpisode.toNat).map p.step

/-- The first evaluations. -/
def firstEvals (limit : Nat) (p : EpisodePlan) : List UInt32 :=
  match p.evalSchedule with
  | some s => s.firstBetween limit p.firstEpisode p.lastEpisode
  | none => []

/-- The first checkpoints. -/
def firstCheckpoints (limit : Nat) (p : EpisodePlan) : List UInt32 :=
  firstMultiples limit (p.checkpointInterval.getD 0) p.firstEpisode p.lastEpisode

/-- The first episodes that are followed by an evaluation, a checkpoint or both. The
first `limit` of either kind are enough to know the first `limit` events. -/
def firstEvents (limit : Nat) (p : EpisodePlan) : List EpisodeStep :=
  ((mergeEpisodes (p.firstEvals limit) (p.firstCheckpoints limit)).take limit).map p.step

/-- Every episode of the run. -/
def steps (p : EpisodePlan) : List EpisodeStep :=
  p.firstSteps episodeLimit

/-- Every evaluation. -/
def evalEpisodes (p : EpisodePlan) : List UInt32 :=
  match p.evalSchedule with
  | some (.interval n) => multiples n p.firstEpisode p.lastEpisode
  | some (.episodes list) =>
    list.filter fun e => max p.firstEpisode 1 ≤ e && e ≤ p.lastEpisode
  | none => []

/-- Every checkpoint. -/
def checkpointEpisodes (p : EpisodePlan) : List UInt32 :=
  multiples (p.checkpointInterval.getD 0) p.firstEpisode p.lastEpisode

/-- Every episode that is followed by an evaluation, a checkpoint or both, in order. -/
def events (p : EpisodePlan) : List EpisodeStep :=
  (mergeEpisodes p.evalEpisodes p.checkpointEpisodes).map p.step

end EpisodePlan

namespace Workflow

/-- The episode a run starts at: after the one it resumes from, or one. -/
def firstEpisode (w : Workflow) : UInt32 :=
  match w.training.loadPath, w.training.loadEpisode with
  | some _, some e => if e.toNat + 1 < episodeLimit then e + 1 else e
  | _, _ => 1

/-- The plan of the run, when the document bounds it. -/
def episodePlan (w : Workflow) : Option EpisodePlan :=
  w.main.numEpisodes.map fun last => {
    firstEpisode := w.firstEpisode
    lastEpisode := last
    maxSteps := w.main.numSteps
    evalSchedule := w.main.evalSchedule.map EvalSchedule.normalized
    checkpointInterval := w.training.checkpointing.map (·.interval) }

end Workflow

end RunPlan
