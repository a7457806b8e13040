import Cllm.Api.Llm
import Cllm.Heap.Allocator
import Cllm.Libc.Decimal

namespace Cllm.Llm

open Libc Api

/-- What llm_context holds of its tokens, and the allocations: for the address of a live one its
ints. A NULL pointer is `none`. -/
structure Context where
  tokens : Option Nat
  tokenCount : Int32
  heap : Nat → Option (List Int32)

/-- The context that llm_init makes. -/
def llmInit (heap : Nat → Option (List Int32)) : Context := ⟨none,0,heap⟩

/-- token_count * sizeof(int) in a size_t -/
def tokenBytes (tokenCount : Int32) : Nat := (tokenCount.toUInt32*4).toNat

/-- The ints of a block that malloc returns for so many bytes. -/
def blockInts (bytes : Nat) : Nat := Heap.alignSize bytes/4

namespace Context

def free (c : Context) (p : Nat) : Context := {c with heap := Function.update c.heap p none}

/-- tokens[i]; `none` is a read through a pointer that is NULL or freed, or past the end. -/
def read (c : Context) (i : Int32) : Option Int32 := do
  let p ← c.tokens
  let ints ← c.heap p
  ints[i.toInt.toNat]?

end Context

/-- A block of `n` ints with the caller's in front. -/
def stored (tokens : List Int32) (n : Nat) : List Int32 :=
  (List.range n).map fun i => tokens.getD i 0

/-- llm_eval with what malloc returns; `false` is -1. Only as many ints are copied as the block
has, which are fewer than the caller's when the size has wrapped. -/
def llmEval (c : Context) (tokens : List Int32) (tokenCount : Int32) (malloc : Option Nat) :
    Context × Bool :=
  if tokenCount≤0 then (c,false)
  else
    let c := match c.tokens with
      | some p => c.free p
      | none => c
    match malloc with
    | none => ({c with tokens := none},false)
    | some p =>
      let ints := tokens.take tokenCount.toInt.toNat
      let block := stored ints (blockInts (tokenBytes tokenCount))
      (⟨some p,tokenCount,Function.update c.heap p (some block)⟩,true)

/-- The token that llm_sample stores; `none` as for `read`. -/
def llmSample (c : Context) : Option Int32 :=
  if 0 < c.tokenCount then (c.read (c.tokenCount-1)).map fun token => token+1 else some 65

/-- How llm_generate ends: with the text it has put out, with -1, or in llm_sample. -/
inductive Generated where
  | text (output : List UInt8)
  | failed
  | badRead
  deriving DecidableEq

/-- The loop of llm_generate, with what malloc returns in the turns. -/
def generateLoop (mallocs : Nat → Option Nat) (outputSize : Nat) :
    (turns : Nat) → (i : Nat) → (tokens : List Int32) → (output : List UInt8) → Context →
    Context × Generated
  | 0,_,_,output,c => (c,.text output)
  | turns+1,i,tokens,output,c =>
    if output.length+1 < outputSize then
      match llmEval c tokens (Int32.ofNat tokens.length) (mallocs i) with
      | (c,false) => (c,.failed)
      | (c,true) =>
        match llmSample c with
        | none => (c,.badRead)
        | some token =>
          generateLoop mallocs outputSize turns (i+1) (pushToken tokens token)
            (output++[charOf token]) c
    else (c,.text output)

def llmGenerate (c : Context) (prompt : List UInt8) (maxTokens : Int32) (outputSize : Nat)
    (mallocs : Nat → Option Nat) : Context × Generated :=
  if maxTokens≤0 ∨ outputSize=0 then (c,.failed)
  else generateLoop mallocs outputSize maxTokens.toInt.toNat 0 (llmTokenize prompt 512) [] c

/-- A call on the context, with what malloc returns in it. -/
inductive Call where
  | eval (tokens : List Int32) (tokenCount : Int32) (malloc : Option Nat)
  | sample
  | generate (prompt : List UInt8) (maxTokens : Int32) (outputSize : Nat)
      (mallocs : Nat → Option Nat)

def step (c : Context) : Call → Context
  | .eval tokens tokenCount malloc => (llmEval c tokens tokenCount malloc).1
  | .sample => c
  | .generate prompt maxTokens outputSize mallocs =>
    (llmGenerate c prompt maxTokens outputSize mallocs).1

/-- The buffer is as long as the count says, when it says anything. -/
def Context.Backed (c : Context) : Prop :=
  c.tokenCount=0 ∨ ∃ p ints,c.tokens=some p ∧ c.heap p=some ints ∧
    c.tokenCount.toInt.toNat ≤ ints.length

/-- The number of times llm_generate calls llm_eval with tokens, if none fails. -/
def evaluations (prompt : List UInt8) (maxTokens : Int32) (outputSize : Nat) : Nat :=
  if cut prompt=[] then 0 else min maxTokens.toInt.toNat (outputSize-1)

/-- No size wraps when it is rounded up, and malloc fails only in a context without tokens. -/
def Context.Meets (c : Context) : Call → Prop
  | .eval _ tokenCount malloc =>
    0 < tokenCount → (malloc≠none ∧ tokenCount < 2^30-1) ∨ (malloc=none ∧ c.tokenCount=0)
  | .sample => True
  | .generate prompt maxTokens outputSize mallocs =>
    (∀ i < evaluations prompt maxTokens outputSize,mallocs i≠none) ∨
      (mallocs 0=none ∧ c.tokenCount=0)

/-- The contexts of a run, the first one included. -/
def reached (c : Context) : List Call → List Context
  | [] => [c]
  | call::calls => c::reached (step c call) calls

/-- Every call of a run meets the condition in the context it finds. -/
def AllMeet (c : Context) : List Call → Prop
  | [] => True
  | call::calls => c.Meets call ∧ AllMeet (step c call) calls

theorem stored_length (tokens : List Int32) (n : Nat) : (stored tokens n).length=n := by
  rw [stored,List.length_map,List.length_range]

theorem stored_getElem? (tokens : List Int32) {i n : Nat} (h : i < n) :
    (stored tokens n)[i]?=some (tokens.getD i 0) := by
  rw [stored,List.getElem?_map,List.getElem?_range h]
  rfl

theorem toUInt32_toNat {n : Int32} (h : 0 < n) : n.toUInt32.toNat=n.toInt.toNat := by
  have hn : ¬n < 0 := Int32.not_lt.mpr (Int32.le_of_lt h)
  have ha := int32_natAbs n
  rw [if_neg hn] at ha
  have hpos : 0 < n.toInt := Int32.lt_iff_toInt_lt.mp h
  omega

theorem tokenBytes_eq {n : Int32} (h : 0 < n) : tokenBytes n=n.toInt.toNat*4%2^32 := by
  rw [tokenBytes,UInt32.toNat_mul,toUInt32_toNat h]
  rfl

theorem lt_limit (n : Int32) : n < 2^30-1 ↔ n.toInt < 2^30-1 := by
  have hlimit : (2^30-1 : Int32).toInt=2^30-1 := by decide
  rw [Int32.lt_iff_toInt_lt,hlimit]

/-- Below the limit the size does not wrap. -/
theorem le_blockInts {n : Int32} (h : 0 < n) (hn : n < 2^30-1) :
    n.toInt.toNat ≤ blockInts (tokenBytes n) := by
  have hlt := (lt_limit n).mp hn
  have hpos : 0 < n.toInt := Int32.lt_iff_toInt_lt.mp h
  rw [tokenBytes_eq h]
  unfold blockInts Heap.alignSize Heap.wrap
  dsimp only
  split <;> omega

/-- From the limit on it does, and the block is too short. -/
theorem blockInts_lt {n : Int32} (h : 0 < n) (hn : ¬n < 2^30-1) :
    blockInts (tokenBytes n) < n.toInt.toNat := by
  have hle := mt (lt_limit n).mpr hn
  have hhi := n.toInt_lt
  rw [tokenBytes_eq h]
  unfold blockInts Heap.alignSize Heap.wrap
  dsimp only
  split <;> omega

theorem toInt_pred {n : Int32} (h : 0 < n) : (n-1).toInt.toNat+1=n.toInt.toNat := by
  have hpos : 0 < n.toInt := Int32.lt_iff_toInt_lt.mp h
  have hhi := n.toInt_lt
  have hone : (1 : Int32).toInt=1 := by decide
  rw [Int32.toInt_sub,hone,Int.bmod_eq_of_le (by omega) (by omega)]
  omega

theorem Context.read_last {c : Context} {p : Nat} {ints : List Int32} (hp : c.tokens=some p)
    (hints : c.heap p=some ints) (hpos : 0 < c.tokenCount) :
    c.read (c.tokenCount-1)=ints[c.tokenCount.toInt.toNat-1]? := by
  have hpred := toInt_pred hpos
  have hindex : (c.tokenCount-1).toInt.toNat=c.tokenCount.toInt.toNat-1 := by omega
  simp only [read,hp,hints,hindex,Option.bind_eq_bind,Option.bind_some]

theorem Context.Backed.sample {c : Context} (h : c.Backed) : llmSample c≠none := by
  unfold llmSample
  split
  · next hpos =>
    obtain h0 | ⟨p,ints,hp,hints,hle⟩ := h
    · rw [h0] at hpos
      exact absurd hpos (by decide)
    · have hpred := toInt_pred hpos
      rw [c.read_last hp hints hpos,List.getElem?_eq_getElem (by omega)]
      exact Option.some_ne_none _
  · exact Option.some_ne_none 65

theorem eq_zero_iff {n : Int32} (h : 0 < n) : ¬n=0 := by
  intro h0
  rw [h0] at h
  exact absurd h (by decide)

section

variable {c : Context} {tokens : List Int32} {n : Int32}

theorem eval_none (h : 0 < n) :
    ∃ heap,llmEval c tokens n none=(⟨none,c.tokenCount,heap⟩,false) := by
  have hn : ¬n ≤ 0 := Int32.not_le.mpr h
  unfold llmEval
  rw [if_neg hn]
  cases c.tokens <;> exact ⟨_,rfl⟩

/-- The buffer after llm_eval, whatever it was before. -/
theorem eval_some (h : 0 < n) (p : Nat) :
    ∃ heap,llmEval c tokens n (some p)=(⟨some p,n,heap⟩,true) ∧
      heap p=some (stored (tokens.take n.toInt.toNat) (blockInts (tokenBytes n))) := by
  have hn : ¬n ≤ 0 := Int32.not_le.mpr h
  unfold llmEval
  rw [if_neg hn]
  cases c.tokens <;> exact ⟨_,rfl,Function.update_self ..⟩

theorem backed_none {count : Int32} {heap : Nat → Option (List Int32)} :
    (⟨none,count,heap⟩ : Context).Backed ↔ count=0 := by
  constructor
  · rintro (h0 | ⟨p,ints,hp,-⟩)
    · exact h0
    · cases hp
  · intro h0
    exact .inl h0

theorem backed_some {p : Nat} {heap : Nat → Option (List Int32)} {block : List Int32}
    (h : 0 < n) (hp : heap p=some block) :
    (⟨some p,n,heap⟩ : Context).Backed ↔ n.toInt.toNat ≤ block.length := by
  constructor
  · rintro (h0 | ⟨q,ints,hq,hints,hle⟩)
    · exact absurd h0 (eq_zero_iff h)
    · have hints' : heap q=some ints := hints
      rw [← Option.some.inj hq,hp] at hints'
      rwa [Option.some.inj hints']
  · intro hle
    exact .inr ⟨p,block,rfl,hp,hle⟩

theorem eval_backed_iff (hc : c.Backed) (malloc : Option Nat) :
    (llmEval c tokens n malloc).1.Backed ↔ c.Meets (.eval tokens n malloc) := by
  by_cases h : 0 < n
  · cases malloc with
    | none =>
      obtain ⟨heap,heq⟩ := @eval_none c tokens n h
      rw [heq,backed_none]
      constructor
      · intro h0 _
        exact .inr ⟨rfl,h0⟩
      · intro hm
        obtain ⟨hsome,-⟩ | ⟨-,h0⟩ := hm h
        · exact absurd rfl hsome
        · exact h0
    | some p =>
      obtain ⟨heap,heq,hp⟩ := @eval_some c tokens n h p
      rw [heq,backed_some h hp,stored_length]
      constructor
      · intro hle _
        by_contra hm
        have hlimit : ¬n < 2^30-1 := fun hn => hm (.inl ⟨Option.some_ne_none p,hn⟩)
        exact absurd (blockInts_lt h hlimit) (Nat.not_lt_of_le hle)
      · intro hm
        obtain ⟨-,hn⟩ | ⟨hnone,-⟩ := hm h
        · exact le_blockInts h hn
        · cases hnone
  · have hle : n ≤ 0 := Int32.not_lt.mp h
    have heq : llmEval c tokens n malloc=(c,false) := if_pos hle
    rw [heq]
    exact ⟨fun _ hpos => absurd hpos h,fun _ => hc⟩

end

/-- The window of llm_generate is never empty once it holds a token, and never over 512. -/
def Window (tokens : List Int32) : Prop := tokens≠[] ∧ tokens.length ≤ 512

theorem Window.push {tokens : List Int32} (h : Window tokens) (token : Int32) :
    Window (pushToken tokens token) := by
  obtain ⟨-,hlen⟩ := h
  unfold Window pushToken
  split
  · simp only [ne_eq,List.append_eq_nil_iff,List.cons_ne_nil,and_false,not_false_eq_true,true_and,
      List.length_append,List.length_singleton]
    omega
  · simp only [ne_eq,List.append_eq_nil_iff,List.cons_ne_nil,and_false,not_false_eq_true,true_and,
      List.length_append,List.length_singleton,List.length_tail]
    omega

section

variable {tokens : List Int32} (h : Window tokens)

include h

theorem Window.count : (Int32.ofNat tokens.length).toInt=tokens.length :=
  Int32.toInt_ofNat_of_lt (lt_of_le_of_lt h.2 (by decide))

theorem Window.pos : 0 < Int32.ofNat tokens.length := by
  have hpos : 0 < tokens.length := List.length_pos_of_ne_nil h.1
  rw [Int32.lt_iff_toInt_lt,h.count,Int32.toInt_zero]
  exact Int.natCast_pos.mpr hpos

theorem Window.limit : Int32.ofNat tokens.length < 2^30-1 := by
  have hlen := h.2
  rw [lt_limit,h.count]
  omega

/-- A turn whose malloc succeeds samples from the window it has just stored. -/
theorem Window.eval (c : Context) (p : Nat) :
    ∃ c',llmEval c tokens (Int32.ofNat tokens.length) (some p)=(c',true) ∧ c'.Backed ∧
      c'.tokenCount≠0 ∧ llmSample c'=some (Api.llmSample tokens) := by
  have hcount : (Int32.ofNat tokens.length).toInt.toNat=tokens.length := by rw [h.count]; rfl
  have hroom := le_blockInts h.pos h.limit
  have hpos : 0 < tokens.length := List.length_pos_of_ne_nil h.1
  obtain ⟨heap,heq,hblock⟩ := @eval_some c tokens _ h.pos p
  rw [hcount,List.take_length] at hblock
  have hbacked : (⟨some p,Int32.ofNat tokens.length,heap⟩ : Context).Backed := by
    rw [backed_some h.pos hblock,stored_length]
    exact hroom
  have hread := (⟨some p,Int32.ofNat tokens.length,heap⟩ : Context).read_last rfl hblock h.pos
  dsimp only at hread
  rw [hcount] at hread hroom
  rw [stored_getElem? _ (by omega)] at hread
  refine ⟨_,heq,hbacked,eq_zero_iff h.pos,?_⟩
  unfold llmSample Api.llmSample
  rw [if_pos h.pos,hread,List.getLast?_eq_getElem?,List.getElem?_eq_getElem (by omega),
    List.getD_eq_getElem _ _ (by omega)]
  rfl

end

theorem eval_fails {c : Context} {tokens : List Int32} {n : Int32} (h : 0 < n) (hc : c.Backed) :
    (llmEval c tokens n none).1.Backed ↔ c.tokenCount=0 := by
  rw [eval_backed_iff hc]
  constructor
  · intro hm
    obtain ⟨hsome,-⟩ | ⟨-,h0⟩ := hm h
    · exact absurd rfl hsome
    · exact h0
  · intro h0 _
    exact .inr ⟨rfl,h0⟩

/-- The turns that are left for the loop, by the number of calls and by the room for text. -/
theorem generateLoop_backed_iff (mallocs : Nat → Option Nat) (outputSize : Nat) {turns i : Nat}
    {tokens : List Int32} {output : List UInt8} {c : Context} (h : Window tokens)
    (hc : c.Backed) :
    (generateLoop mallocs outputSize turns i tokens output c).1.Backed ↔
      (∀ j < min turns (outputSize-1-output.length),mallocs (i+j)≠none) ∨
        (mallocs i=none ∧ c.tokenCount=0) := by
  induction turns generalizing i tokens output c with
  | zero =>
    rw [Nat.zero_min]
    exact ⟨fun _ => .inl fun j hj => absurd hj (Nat.not_lt_zero j),fun _ => hc⟩
  | succ turns ih =>
    rw [generateLoop]
    by_cases hroom : output.length+1 < outputSize
    · rw [if_pos hroom]
      cases hm : mallocs i with
      | none =>
        obtain ⟨heap,heq⟩ := @eval_none c tokens _ h.pos
        have hfails := @eval_fails c tokens _ h.pos hc
        rw [heq] at hfails ⊢
        dsimp only
        rw [hfails]
        constructor
        · intro h0
          exact .inr ⟨rfl,h0⟩
        · rintro (hall | ⟨-,h0⟩)
          · exact absurd hm (hall 0 (by omega))
          · exact h0
      | some p =>
        obtain ⟨c',heq,hb,hne,hsample⟩ := h.eval c p
        rw [heq]
        dsimp only
        rw [hsample]
        dsimp only
        rw [ih (h.push _) hb]
        constructor
        · rintro (hall | ⟨-,h0⟩)
          · refine .inl fun j hj => ?_
            cases j with
            | zero =>
              rw [Nat.add_zero,hm]
              exact Option.some_ne_none p
            | succ j =>
              have hnext := hall j (by rw [List.length_append,List.length_singleton]; omega)
              rwa [Nat.add_right_comm] at hnext
          · exact absurd h0 hne
        · rintro (hall | ⟨hnone,-⟩)
          · refine .inl fun j hj => ?_
            rw [List.length_append,List.length_singleton] at hj
            have hnext := hall (j+1) (by omega)
            rwa [← Nat.add_assoc,Nat.add_right_comm] at hnext
          · cases hnone
    · rw [if_neg hroom]
      have hzero : min (turns+1) (outputSize-1-output.length)=0 := by omega
      rw [hzero]
      exact ⟨fun _ => .inl fun j hj => absurd hj (Nat.not_lt_zero j),fun _ => hc⟩

/-- The text is the one of the loop without a heap, and no turn reads outside its buffer. -/
theorem generateLoop_refines (mallocs : Nat → Option Nat) (outputSize : Nat) {turns i : Nat}
    {tokens : List Int32} {output : List UInt8} {c : Context} (h : Window tokens) :
    (generateLoop mallocs outputSize turns i tokens output c).2=
      match Api.generateLoop (fun j => (mallocs j).isSome) outputSize turns i tokens output with
      | none => .failed
      | some text => .text text := by
  induction turns generalizing i tokens output c with
  | zero => rfl
  | succ turns ih =>
    rw [generateLoop,Api.generateLoop]
    by_cases hroom : output.length+1 < outputSize
    · rw [if_pos hroom,if_pos hroom]
      cases hm : mallocs i with
      | none =>
        obtain ⟨heap,heq⟩ := @eval_none c tokens _ h.pos
        rw [heq]
        simp [Api.llmEval]
      | some p =>
        obtain ⟨c',heq,-,-,hsample⟩ := h.eval c p
        rw [heq]
        dsimp only
        rw [hsample]
        dsimp only
        rw [ih (h.push _)]
        simp [Api.llmEval,h.1]
    · rw [if_neg hroom,if_neg hroom]

theorem window_tokenize {prompt : List UInt8} (h : cut prompt≠[]) :
    Window (llmTokenize prompt 512) := by
  have hlen : 0 < (cut prompt).length := List.length_pos_of_ne_nil h
  refine ⟨List.ne_nil_of_length_pos ?_,?_⟩
  · rw [llmTokenize,List.length_map,List.length_take]
    omega
  · rw [llmTokenize,List.length_map,List.length_take]
    exact Nat.min_le_left 512 _

/-- Nothing happens to the context for a prompt without tokens. -/
theorem generateLoop_nil (mallocs : Nat → Option Nat) (outputSize turns i : Nat)
    (output : List UInt8) (c : Context) :
    (generateLoop mallocs outputSize turns i [] output c).1=c := by
  cases turns with
  | zero => rfl
  | succ turns =>
    rw [generateLoop]
    split
    · rfl
    · rfl

theorem generate_backed_iff {c : Context} (hc : c.Backed) (prompt : List UInt8)
    (maxTokens : Int32) (outputSize : Nat) (mallocs : Nat → Option Nat) :
    (llmGenerate c prompt maxTokens outputSize mallocs).1.Backed ↔
      c.Meets (.generate prompt maxTokens outputSize mallocs) := by
  change _ ↔ (∀ i < evaluations prompt maxTokens outputSize,mallocs i≠none) ∨ _
  unfold evaluations llmGenerate
  by_cases hno : maxTokens ≤ 0 ∨ outputSize=0
  · have hzero : min maxTokens.toInt.toNat (outputSize-1)=0 := by
      obtain hle | h0 := hno
      · have hle' : maxTokens.toInt ≤ 0 := Int32.le_iff_toInt_le.mp hle
        omega
      · omega
    rw [if_pos hno,hzero,ite_self]
    exact ⟨fun _ => .inl fun j hj => absurd hj (Nat.not_lt_zero j),fun _ => hc⟩
  · rw [if_neg hno]
    by_cases hcut : cut prompt=[]
    · have hnil : llmTokenize prompt 512=[] := by rw [llmTokenize,hcut]; rfl
      rw [if_pos hcut,hnil,generateLoop_nil]
      exact ⟨fun _ => .inl fun j hj => absurd hj (Nat.not_lt_zero j),fun _ => hc⟩
    · rw [if_neg hcut,generateLoop_backed_iff mallocs outputSize (window_tokenize hcut) hc]
      simp only [List.length_nil,Nat.sub_zero,Nat.zero_add]

/-- llm_generate on a heap puts out what it does without one. -/
theorem generate_refines (c : Context) {prompt : List UInt8} (hcut : cut prompt≠[])
    (maxTokens : Int32) {outputSize : Nat} (hsize : outputSize≠0) (mallocs : Nat → Option Nat) :
    (llmGenerate c prompt maxTokens outputSize mallocs).2=
      match Api.llmGenerate (fun i => (mallocs i).isSome) prompt maxTokens outputSize with
      | none => .failed
      | some text => .text text := by
  unfold llmGenerate Api.llmGenerate
  by_cases hle : maxTokens ≤ 0
  · rw [if_pos (.inl hle),if_pos hle]
  · have hno : ¬(maxTokens ≤ 0 ∨ outputSize=0) := not_or.mpr ⟨hle,hsize⟩
    rw [if_neg hno,if_neg hle]
    exact generateLoop_refines mallocs outputSize (window_tokenize hcut)

theorem step_backed_iff {c : Context} (hc : c.Backed) (call : Call) :
    (step c call).Backed ↔ c.Meets call := by
  cases call with
  | eval tokens tokenCount malloc => exact eval_backed_iff hc malloc
  | sample => exact ⟨fun _ => trivial,fun _ => hc⟩
  | generate prompt maxTokens outputSize mallocs =>
    exact generate_backed_iff hc prompt maxTokens outputSize mallocs

theorem backed_run_iff {c : Context} (hc : c.Backed) (calls : List Call) :
    (∀ d∈reached c calls,d.Backed) ↔ AllMeet c calls := by
  induction calls generalizing c with
  | nil =>
    refine ⟨fun _ => trivial,fun _ d hd => ?_⟩
    rw [List.mem_singleton.mp hd]
    exact hc
  | cons call calls ih =>
    rw [reached,List.forall_mem_cons,AllMeet]
    constructor
    · rintro ⟨-,hrest⟩
      have hnext : (step c call).Backed := by
        apply hrest
        cases calls <;> exact List.mem_cons_self
      exact ⟨(step_backed_iff hc call).mp hnext,(ih hnext).mp hrest⟩
    · rintro ⟨hm,hrest⟩
      exact ⟨hc,(ih ((step_backed_iff hc call).mpr hm)).mpr hrest⟩

/-- Every context of a run has a buffer for its count, from which llm_sample can read, as long as
every call meets the condition. -/
theorem run_backed_iff (heap : Nat → Option (List Int32)) (calls : List Call) :
    (∀ c∈reached (llmInit heap) calls,c.Backed ∧ llmSample c≠none) ↔
      AllMeet (llmInit heap) calls := by
  have hinit : (llmInit heap).Backed := .inl rfl
  rw [← backed_run_iff hinit]
  constructor
  · intro h c hc
    exact (h c hc).1
  · intro h c hc
    exact ⟨h c hc,(h c hc).sample⟩

/-- A second llm_eval that gets no memory leaves the count of the first without a buffer. -/
theorem failed_eval_leaves_count :
    ∃ c∈reached (llmInit fun _ => none) [.eval [65] 1 (some 4096),.eval [66] 1 none],
      ¬c.Backed ∧ llmSample c=none := by
  refine ⟨_,List.mem_cons_of_mem _ (List.mem_cons_of_mem _ List.mem_cons_self),?_,rfl⟩
  intro h
  exact absurd (backed_none.mp h) (by decide)

end Cllm.Llm
