import Cllm.Libc.Memory

namespace Cllm.Llama

open Libc

/-- The vocabulary of a model, and what the calls of llama_decode, llama_get_kv_cache_used_cells
and llama_sampler_sample return, each in their order. -/
structure Script where
  tokenize : List UInt8 → Option (List Int32)
  isEog : Int32 → Bool
  text : Int32 → List UInt8
  decode : Nat → Int32
  usedCells : Nat → Int32
  sample : Nat → Int32 → Int32

/-- One token of a llama_batch. -/
structure Entry where
  token : Int32
  pos : Int32
  nSeqId : Int32
  seqId : Int32
  logits : Bool
  deriving DecidableEq

/-- What llm_generate has done: the batches for llama_decode, its output and prev_tokens. -/
structure Run where
  batches : List (List Entry)
  output : List UInt8
  prevTokens : Int32

/-- The batch of llm_eval. -/
def batch (tokens : List Int32) : List Entry :=
  tokens.mapIdx fun i token => ⟨token,Int32.ofNat i,1,0,decide (i+1=tokens.length)⟩

section

variable (L : Script)

def llmEval (r : Run) (tokens : List Int32) : Run × Bool :=
  if tokens=[] then (r,false)
  else ({r with batches := r.batches++[batch tokens]},decide (L.decode r.batches.length=0))

/-- llm_sample in turn `i`; `none` is -1. -/
def llmSample (i : Nat) : Option Int32 :=
  if L.usedCells i≤0 then none else some (L.sample i (L.usedCells i-1))

def generateLoop (outputSize : Nat) : (turns : Nat) → (i : Nat) → Run → Run
  | 0,_,r => r
  | turns+1,i,r =>
    match llmSample L i with
    | none => r
    | some next =>
      if L.isEog next then r
      else
        let piece := cut (L.text next)
        if outputSize ≤ r.output.length+piece.length then r
        else
          match llmEval L {r with output := r.output++piece} [next] with
          | (r,false) => r
          | (r,true) => generateLoop outputSize turns (i+1) {r with prevTokens := r.prevTokens+1}

/-- The run, and whether it returns the length of its output; `false` is -1. -/
def llmGenerate (prompt : List UInt8) (maxTokens : Int32) (outputSize : Nat) : Run × Bool :=
  let r : Run := ⟨[],[],0⟩
  if outputSize=0 then (r,false)
  else
    match L.tokenize prompt with
    | none => (r,false)
    | some promptTokens =>
      match llmEval L r promptTokens with
      | (r,false) => (r,false)
      | (r,true) =>
        (generateLoop L outputSize maxTokens.toInt.toNat 0
          {r with prevTokens := Int32.ofNat promptTokens.length},true)

end

/-- The positions of all tokens that are decoded, in order. -/
def Run.positions (r : Run) : List Int32 := r.batches.flatten.map Entry.pos

/-- 0, 1, 2 and so on. -/
def counting (n : Nat) : List Int32 := (List.range n).map Int32.ofNat

theorem batch_positions (tokens : List Int32) :
    (batch tokens).map Entry.pos=counting tokens.length := by
  apply List.ext_getElem
  · simp [batch,counting]
  · intro i hi hi'
    simp [batch,counting]

section

variable {L : Script} {r : Run}

theorem eval_positions (hdecode : ∀ i,L.decode i=0) {tokens : List Int32} (h : tokens≠[]) :
    ∃ r',llmEval L r tokens=(r',true) ∧ r'.output=r.output ∧
      r'.positions=r.positions++counting tokens.length := by
  refine ⟨{r with batches := r.batches++[batch tokens]},?_,rfl,?_⟩
  · rw [llmEval,if_neg h,hdecode]
    rfl
  · rw [Run.positions,Run.positions,List.flatten_append,List.map_append,List.flatten_singleton,
      batch_positions]

/-- The first sampled token ends the run, or does not fit. -/
def Stops (L : Script) (outputSize : Nat) (r : Run) (i : Nat) : Prop :=
  L.isEog (L.sample i (L.usedCells i-1))=true ∨
    outputSize ≤ r.output.length+(cut (L.text (L.sample i (L.usedCells i-1)))).length

/-- Every token that is generated is decoded at the position 0. -/
theorem loop_positions (hdecode : ∀ i,L.decode i=0) (hcells : ∀ i,0 < L.usedCells i)
    (outputSize turns i : Nat) (r : Run) :
    ∃ n,(generateLoop L outputSize turns i r).positions=r.positions++List.replicate n 0 ∧
      (n=0 ↔ turns=0 ∨ Stops L outputSize r i) := by
  induction turns generalizing i r with
  | zero => exact ⟨0,(List.append_nil _).symm,by simp⟩
  | succ turns ih =>
    have hsample : llmSample L i=some (L.sample i (L.usedCells i-1)) :=
      if_neg (Int32.not_le.mpr (hcells i))
    rw [generateLoop,hsample,Stops]
    dsimp only
    generalize L.sample i (L.usedCells i-1)=next
    by_cases heog : L.isEog next=true
    · rw [if_pos heog]
      exact ⟨0,(List.append_nil _).symm,by simp [heog]⟩
    · rw [if_neg heog]
      by_cases hroom : outputSize ≤ r.output.length+(cut (L.text next)).length
      · rw [if_pos hroom]
        exact ⟨0,(List.append_nil _).symm,by simp [hroom]⟩
      · obtain ⟨r',heval,-,hpositions⟩ := @eval_positions L
          {r with output := r.output++cut (L.text next)} hdecode [next] (List.cons_ne_nil _ _)
        rw [if_neg hroom,heval]
        obtain ⟨n,hn,-⟩ := ih (i+1) {r' with prevTokens := r'.prevTokens+1}
        refine ⟨n+1,?_,by simp [heog,hroom]⟩
        dsimp only
        rw [hn]
        change r'.positions++_=_
        rw [hpositions,List.append_assoc]
        rfl

theorem counting_length (n : Nat) : (counting n).length=n := by
  rw [counting,List.length_map,List.length_range]

/-- A second 0 is out of order. -/
theorem counting_append_zeros {m : Nat} (hpos : 0 < m) (hm : m ≤ 512) (n : Nat) :
    counting m++List.replicate n 0=counting (counting m++List.replicate n (0 : Int32)).length ↔
      n=0 := by
  constructor
  · intro h
    by_contra hn
    have hlen : (counting m++List.replicate n (0 : Int32)).length=m+n := by
      rw [List.length_append,counting_length,List.length_replicate]
    have hget := congrArg (fun l => l[m]?) h
    rw [hlen] at hget
    rw [List.getElem?_append_right (counting_length m).le,counting_length,Nat.sub_self,
      List.getElem?_replicate_of_lt (by omega),counting,List.getElem?_map,
      List.getElem?_range (by omega)] at hget
    have hzero : (0 : Int32)=Int32.ofNat m := Option.some.inj hget
    have hint : (Int32.ofNat m).toInt=m := Int32.toInt_ofNat_of_lt (by omega)
    rw [← hzero] at hint
    have hzero' : (0 : Int32).toInt=0 := by decide
    omega
  · intro h
    subst h
    rw [List.replicate_zero,List.append_nil,counting_length]

/-- The positions count up as long as no token is generated. -/
theorem llmGenerate_positions (hdecode : ∀ i,L.decode i=0) (hcells : ∀ i,0 < L.usedCells i)
    {prompt : List UInt8} {promptTokens : List Int32} (hp : L.tokenize prompt=some promptTokens)
    (hpos : 1 ≤ promptTokens.length) (hlen : promptTokens.length ≤ 512) (maxTokens : Int32)
    (outputSize : Nat) :
    let r := (llmGenerate L prompt maxTokens outputSize).1
    let first := L.sample 0 (L.usedCells 0-1)
    r.positions=counting r.positions.length ↔
      maxTokens ≤ 0 ∨ L.isEog first=true ∨ outputSize ≤ (cut (L.text first)).length := by
  intro r first
  by_cases hsize : outputSize=0
  · have hr : r=⟨[],[],0⟩ := by
      change (llmGenerate L prompt maxTokens outputSize).1=_
      rw [llmGenerate,if_pos hsize]
    rw [hr]
    refine iff_of_true rfl (Or.inr (Or.inr ?_))
    rw [hsize]
    exact Nat.zero_le _
  · obtain ⟨r',heval,houtput,hstart⟩ := @eval_positions L ⟨[],[],0⟩ hdecode promptTokens
      (List.ne_nil_of_length_pos hpos)
    obtain ⟨n,hpositions,hn⟩ := loop_positions hdecode hcells outputSize maxTokens.toInt.toNat 0
      {r' with prevTokens := Int32.ofNat promptTokens.length}
    have hr : r=generateLoop L outputSize maxTokens.toInt.toNat 0
        {r' with prevTokens := Int32.ofNat promptTokens.length} := by
      change (llmGenerate L prompt maxTokens outputSize).1=_
      simp only [llmGenerate,if_neg hsize,hp,heval]
    have hprompt : r'.positions=counting promptTokens.length := hstart
    have hturns : maxTokens.toInt.toNat=0 ↔ maxTokens ≤ 0 := by
      have hzero : (0 : Int32).toInt=0 := by decide
      rw [Int32.le_iff_toInt_le]
      omega
    change _=r'.positions++_ at hpositions
    rw [← hr,hprompt] at hpositions
    rw [hpositions,counting_append_zeros hpos hlen,hn,hturns,Stops]
    change _ ∨ _ ∨ outputSize ≤ r'.output.length+_ ↔ _
    rw [houtput]
    simp [first]

end

/-- Every call succeeds; the sampler does not come to an end. -/
def endless : Script where
  tokenize _ := some [1,9906,1917]
  isEog token := token=2
  text _ := [104,105]
  decode _ := 0
  usedCells _ := 3
  sample _ _ := 6151

theorem three_pos : (0 : Int32) < 3 := by decide

theorem endless_positions :
    let r := (llmGenerate endless [104] 2 64).1
    let first := endless.sample 0 (endless.usedCells 0-1)
    r.positions=counting r.positions.length ↔
      (2 : Int32) ≤ 0 ∨ endless.isEog first=true ∨ 64 ≤ (cut (endless.text first)).length :=
  llmGenerate_positions (fun _ => rfl) (fun _ => three_pos) rfl (by decide) (by decide) 2 64

/-- Both generated tokens take the place of the first token of the prompt. -/
theorem endless_overwrites :
    (llmGenerate endless [104] 2 64).1.positions=[0,1,2,0,0] ∧
      (llmGenerate endless [104] 2 64).1.positions≠counting 5 := by decide

end Cllm.Llama
