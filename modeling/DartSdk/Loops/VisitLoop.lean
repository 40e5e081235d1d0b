import DartSdk.Loops.Control
import DartSdk.Loops.LinearInduction

namespace DartSdk.Loops
open List Function

/-- `info` has the depth of each visited definition, and whether its component is done. -/
structure Visitor where
  index : ℕ
  info : Def → Option (ℕ × Bool)
  stack : List Def
  loop : LoopInfo

namespace Visitor

-- `own` marks the definitions whose innermost loop is the one visited
variable (g : FlowGraph) (own : Def → Bool) (inputs : Def → List Def)

def visitDescendant (visit : Visitor → Def → Visitor) (p : Visitor × ℕ) (d : Def) : Visitor × ℕ :=
  if own d then
    let s := visit p.1 d
    (s, min p.2 (if (p.1.info d).any Prod.snd then s.index else (s.info d).elim s.index Prod.fst))
  else (p.1, min p.2 p.1.index)

def classifyTop (s : Visitor) (d : Def) : Visitor :=
  let (scc, stack) := s.stack.splitAt (s.stack.idxOf d + 1)
  { s with
    info v := (s.info v).map fun p => (p.1, p.2 || v ∈ scc)
    stack := stack
    loop := match scc with
      | [d] => s.loop.classify g d
      | _ => s.loop.classifySCC g scc }

def visit : ℕ → Visitor → Def → Visitor
  | 0, s, _ => s
  | n + 1, s, d =>
    if (s.info d).isSome then s
    else
      let i := s.index + 1
      let s := ⟨i, update s.info d (some (i, false)), d :: s.stack, s.loop⟩
      let (s, low) := (inputs d).foldl (visitDescendant own (visit n)) (s, i)
      if low < i then { s with info := update s.info d (some (low, false)) } else s.classifyTop g d

end Visitor

/-- `defs` are the phis and instructions of the loop's own blocks. -/
def LoopInfo.visitLoop (loop : LoopInfo) (g : FlowGraph) (own : Def → Bool) (inputs : Def → List Def) (n : ℕ)
    (defs : List Def) (outer : List LoopInfo) (last : Instruction) (branches : List Branch) : LoopInfo :=
  let s := ⟨0, fun _ => none, [], { loop with induction := fun _ => none }⟩
  (defs.foldl (Visitor.visit g own inputs n) s).loop.classifyControl g outer last branches

lemma lookupFrom_classifyControl {g : FlowGraph} {loop : LoopInfo} {outer : List LoopInfo} {last : Instruction}
    (branches : List Branch) (n : ℕ) (d : Def) :
    (loop.classifyControl g outer last branches).lookupFrom g n d = loop.lookupFrom g n d := by
  induction branches generalizing loop with
  | nil => rfl
  | cons branch branches ih =>
    obtain ⟨hi, hc⟩ := addBound_shape g loop outer last branch
    exact ih.trans (lookupFrom_congr hi hc n d)

namespace Execution
open Visitor
variable {g : FlowGraph} {loop : LoopInfo} {e : Execution g loop} (hd : ∀ d, e.Joins d) {own : Def → Bool}
  {inputs : Def → List Def}
include hd

lemma Keeps.visit {s : Visitor} (h : e.Keeps s.loop) (n : ℕ) (d : Def) :
    e.Keeps (s.visit g own inputs n d).loop := by
  induction n generalizing s d with
  | zero => exact h
  | succ n ih =>
    unfold Visitor.visit
    split_ifs with hv
    · exact h
    · have hf (p : Visitor × ℕ) (hp : e.Keeps p.1.loop) :
          e.Keeps ((inputs d).foldl (visitDescendant own (Visitor.visit g own inputs n)) p).1.loop := by
        refine foldlRecOn (motive := fun p : Visitor × ℕ => e.Keeps p.1.loop) (inputs d) _ hp fun p hp v _ => ?_
        unfold visitDescendant
        split
        · exact ih hp v
        · exact hp
      dsimp only
      split_ifs
      · exact hf _ h
      · dsimp only [classifyTop]
        split
        · exact (hf _ h).classify hd _
        · exact (hf _ h).classifySCC hd _

end Execution

end DartSdk.Loops
