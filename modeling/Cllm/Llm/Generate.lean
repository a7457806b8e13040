import Cllm.Framework.ByteMemory
import Cllm.Framework.Window
import Cllm.Llm.Context

namespace Cllm.Llm

open Libc Api ByteMemory

/-- int tokens[512] -/
structure TokenArray where
  ints : List Int32
  size : ints.length=512

namespace TokenArray

theorem stored_size (a : TokenArray) (i : Nat) (token : Int32) :
    (a.ints.set i token).length=512 := by rw [List.length_set,a.size]

theorem index_lt (a : TokenArray) {i : Nat} (h : i < 512) : i < a.ints.length := by rwa [a.size]

def load (a : TokenArray) (i : Nat) (h : i < 512) : Int32 := a.ints.get ⟨i,a.index_lt h⟩

/-- The bound keeps a store inside the array. -/
def store (a : TokenArray) (i : Nat) (_ : i < 512) (token : Int32) : TokenArray :=
  ⟨a.ints.set i token,a.stored_size i token⟩

theorem tokenized_size (text : List UInt8) (a : TokenArray) :
    (llmTokenize text 512++a.ints.drop (llmTokenize text 512).length).length=512 := by
  have hlen : (llmTokenize text 512).length ≤ 512 := by
    rw [llmTokenize,List.length_map,List.length_take]
    exact Nat.min_le_left 512 _
  rw [List.length_append,List.length_drop,a.size]
  omega

/-- llm_tokenize into the array. -/
def tokenize (a : TokenArray) (text : List UInt8) : TokenArray :=
  ⟨llmTokenize text 512++a.ints.drop (llmTokenize text 512).length,tokenized_size text a⟩

theorem source_lt {n : Nat} (h : n+1 ≤ 511) : 511-n < 512 := by omega

theorem target_lt {n : Nat} (h : n+1 ≤ 511) : 510-n < 512 := by omega

/-- The loop that makes room, with `n` turns to go: tokens[j-1] = tokens[j] for j = 511-`n`. -/
def shift : (n : Nat) → n ≤ 511 → TokenArray → TokenArray
  | 0,_,a => a
  | n+1,h,a =>
    shift n (Nat.le_of_succ_le h) (a.store (510-n) (target_lt h) (a.load (511-n) (source_lt h)))

end TokenArray

/-- What llm_generate has at the start of a turn, and what it has done: the stores at `output`, the
tokens of every llm_eval and the results of llm_sample. -/
structure Generator where
  tokens : TokenArray
  nTokens : Nat
  outLen : Nat
  memory : Memory
  context : Context
  stores : List Nat
  evals : List (List Int32)
  sampled : List Int32

namespace Generator

/-- output[i] = c -/
def put (g : Generator) (i : Nat) (c : UInt8) : Generator :=
  {g with memory := Function.update g.memory i c,stores := g.stores++[i]}

/-- The tokens that llm_eval gets. -/
def window (g : Generator) : List Int32 := g.tokens.ints.take g.nTokens

theorem last_lt : 511 < 512 := Nat.lt_succ_self 511

/-- The end of the window, behind the sampling. -/
def pushToken (g : Generator) (token : Int32) : Generator :=
  if h : g.nTokens < 512 then
    {g with tokens := g.tokens.store g.nTokens h token,nTokens := g.nTokens+1}
  else {g with tokens := (g.tokens.shift 511 le_rfl).store 511 last_lt token}

/-- output[out_len++] = c; output[out_len] = NUL; -/
def putChar (g : Generator) (c : UInt8) : Generator :=
  ({g.put g.outLen c with outLen := g.outLen+1}).put (g.outLen+1) 0

/-- The rest of a turn, behind llm_sample. -/
def accept (g : Generator) (token : Int32) : Generator :=
  ({g with sampled := g.sampled++[token]}.putChar (charOf token)).pushToken token

end Generator

/-- What llm_generate returns: a length, or -1; or how it goes wrong in llm_sample. -/
inductive Returned where
  | length (n : Nat)
  | failed
  | badRead

namespace Generator

def generateLoop (mallocs : Nat → Option Nat) (outputSize : Nat) :
    (turns : Nat) → (i : Nat) → Generator → Generator × Returned
  | 0,_,g => (g,.length g.outLen)
  | turns+1,i,g =>
    if g.outLen+1 < outputSize then
      let g := {g with evals := g.evals++[g.window]}
      match llmEval g.context g.tokens.ints (Int32.ofNat g.nTokens) (mallocs i) with
      | (c,false) => ({g with context := c},.failed)
      | (c,true) =>
        match llmSample c with
        | none => ({g with context := c},.badRead)
        | some token =>
          generateLoop mallocs outputSize turns (i+1) ({g with context := c}.accept token)
    else (g,.length g.outLen)

/-- llm_generate on an array `tokens` that holds anything, with `memory` at `output`. -/
def llmGenerate (c : Context) (prompt : List UInt8) (maxTokens : Int32) (outputSize : Nat)
    (mallocs : Nat → Option Nat) (tokens : TokenArray) (memory : Memory) : Generator × Returned :=
  let g : Generator := ⟨tokens,0,0,memory,c,[],[],[]⟩
  if maxTokens≤0 ∨ outputSize=0 then (g,.failed)
  else
    let g := {g with tokens := tokens.tokenize prompt,nTokens := (llmTokenize prompt 512).length}
    generateLoop mallocs outputSize maxTokens.toInt.toNat 0 (g.put 0 0)

end Generator

theorem TokenArray.shift_ints {n : Nat} (h : n ≤ 511) (a : TokenArray) :
    (a.shift n h).ints=a.ints.take (511-n)++(a.ints.drop (512-n)++a.ints.drop 511) := by
  induction n generalizing a with
  | zero =>
    have hend : a.ints.drop 512=[] := List.drop_eq_nil_of_le a.size.le
    rw [shift,Nat.sub_zero,Nat.sub_zero,hend,List.nil_append,List.take_append_drop]
  | succ n ih =>
    have hlen := a.size
    have htake : ∀ token,(a.ints.set (510-n) token).take (511-n)=a.ints.take (510-n)++[token] := by
      intro token
      have hsplit : 511-n=510-n+1 := by omega
      rw [hsplit,List.take_add_one,List.take_set_of_le le_rfl,List.getElem?_set_self (by omega)]
      rfl
    have hdrop : a.ints.drop (511-n)=
        a.load (511-n) (source_lt h)::a.ints.drop (512-n) := by
      have hnext : 512-n=511-n+1 := by omega
      rw [hnext,List.drop_eq_getElem_cons (by omega)]
      rfl
    have htarget : 511-(n+1)=510-n := by omega
    have hsource : 512-(n+1)=511-n := by omega
    rw [shift,ih,store,htake,List.drop_set_of_lt (by omega),List.drop_set_of_lt (by omega),
      htarget,hsource,hdrop,List.append_assoc]
    rfl

/-- The first token leaves the array, and `token` is behind the others. -/
theorem TokenArray.shift_store (a : TokenArray) (token : Int32) :
    ((a.shift 511 le_rfl).store 511 Generator.last_lt token).ints=a.ints.tail++[token] := by
  have hlen := a.size
  have hshift := a.shift_ints (n := 511) le_rfl
  have hlast : a.ints.drop 511=[a.ints.get ⟨511,a.index_lt Generator.last_lt⟩] := by
    rw [List.drop_eq_getElem_cons (by omega),List.drop_eq_nil_of_le (by omega)]
    rfl
  have htail : a.ints.tail.length=511 := by
    rw [List.length_tail]
    omega
  rw [store]
  dsimp only
  rw [hshift,Nat.sub_self,List.take_zero,List.nil_append,List.drop_one,hlast,
    List.set_append_right _ _ (by omega),htail,Nat.sub_self]
  rfl

namespace Generator

variable {g : Generator}

theorem length_window (h : g.nTokens ≤ 512) : g.window.length=g.nTokens := by
  rw [window,List.length_take,g.tokens.size]
  exact Nat.min_eq_left h

/-- A new token slides the window. -/
theorem window_pushToken (h : g.nTokens ≤ 512) (token : Int32) :
    (g.pushToken token).window=Window.slide 512 g.window token ∧
      (g.pushToken token).nTokens ≤ 512 := by
  have hlen := g.tokens.size
  rw [pushToken,Window.slide,length_window h]
  by_cases hroom : g.nTokens < 512
  · rw [dif_pos hroom,if_pos hroom,window,window,TokenArray.store]
    dsimp only
    rw [List.take_add_one,List.take_set_of_le le_rfl,List.getElem?_set_self (by omega)]
    exact ⟨rfl,hroom⟩
  · have hfull : g.nTokens=512 := by omega
    have hall : g.window=g.tokens.ints := by
      rw [window,hfull]
      exact List.take_of_length_le hlen.le
    rw [dif_neg hroom,if_neg hroom,hall,window]
    dsimp only
    rw [g.tokens.shift_store]
    refine ⟨?_,h⟩
    apply List.take_of_length_le
    rw [List.length_append,List.length_tail,List.length_singleton]
    omega

/-- The text of `g`: what it has stored in front of the NUL. -/
def text (g : Generator) : List UInt8 := (List.range g.outLen).map g.memory

/-- `g` has generated what it did from the tokens `p` of a prompt. -/
structure Follows (p : List Int32) (g : Generator) : Prop where
  count : g.nTokens ≤ 512
  window : g.window=(p++g.sampled).rtake 512
  length : g.outLen=g.sampled.length
  stores : ∀ i∈g.stores,i ≤ g.outLen
  text : g.text=g.sampled.map charOf
  nul : g.memory g.outLen=0
  evals : g.evals=(List.range g.sampled.length).map fun i => (p++g.sampled.take i).rtake 512

theorem text_putChar (g : Generator) (c : UInt8) : (g.putChar c).text=g.text++[c] := by
  have hsame : ∀ i∈List.range g.outLen,
      Function.update (Function.update g.memory g.outLen c) (g.outLen+1) 0 i=g.memory i := by
    intro i hi
    have hlt := List.mem_range.mp hi
    rw [Function.update_of_ne (by omega),Function.update_of_ne (by omega)]
  have hlast : Function.update (Function.update g.memory g.outLen c) (g.outLen+1) 0 g.outLen=c := by
    rw [Function.update_of_ne (by omega),Function.update_self]
  change (List.range (g.outLen+1)).map
    (Function.update (Function.update g.memory g.outLen c) (g.outLen+1) 0)=_
  rw [List.range_succ,List.map_append,List.map_congr_left hsame,List.map_singleton,hlast]
  rfl

/-- A push changes the tokens only. -/
theorem pushToken_frame (g : Generator) (token : Int32) :
    ∃ tokens nTokens,g.pushToken token={g with tokens := tokens,nTokens := nTokens} := by
  unfold pushToken
  split
  · exact ⟨_,_,rfl⟩
  · exact ⟨_,g.nTokens,rfl⟩

theorem accept_outLen (g : Generator) (token : Int32) :
    (g.accept token).outLen=g.outLen+1 := by
  unfold accept
  obtain ⟨tokens,nTokens,hpush⟩ :=
    ({g with sampled := g.sampled++[token]}.putChar (charOf token)).pushToken_frame token
  rw [hpush]
  rfl

theorem accept_window (h : g.nTokens ≤ 512) (token : Int32) :
    (g.accept token).window=Api.pushToken g.window token := by
  let g' : Generator := {g with sampled := g.sampled++[token]}.putChar (charOf token)
  exact (window_pushToken (g := g') h token).1

theorem accept_count (h : g.nTokens ≤ 512) (token : Int32) : (g.accept token).nTokens ≤ 512 := by
  let g' : Generator := {g with sampled := g.sampled++[token]}.putChar (charOf token)
  exact (window_pushToken (g := g') h token).2

theorem accept_text (g : Generator) (token : Int32) :
    (g.accept token).text=g.text++[charOf token] := by
  have htext := text_putChar {g with sampled := g.sampled++[token]} (charOf token)
  unfold accept
  obtain ⟨tokens,nTokens,hpush⟩ :=
    ({g with sampled := g.sampled++[token]}.putChar (charOf token)).pushToken_frame token
  rw [hpush]
  exact htext

theorem accept_context (g : Generator) (token : Int32) :
    (g.accept token).context=g.context := by
  unfold accept
  obtain ⟨tokens,nTokens,hpush⟩ :=
    ({g with sampled := g.sampled++[token]}.putChar (charOf token)).pushToken_frame token
  rw [hpush]
  rfl

section Turn

variable {p : List Int32}

/-- What a turn keeps, with llm_eval leaving the context `c` and llm_sample giving `token`. -/
theorem Follows.accept (h : g.Follows p) (c : Context) (token : Int32) :
    ({g with evals := g.evals++[g.window],context := c}.accept token).Follows p := by
  let g₀ : Generator := {g with
    evals := g.evals++[g.window],context := c,sampled := g.sampled++[token]}
  -- the state in front of the push
  let g' : Generator := g₀.putChar (charOf token)
  change (g'.pushToken token).Follows p
  obtain ⟨hwindow,hcount⟩ := window_pushToken (g := g') h.count token
  obtain ⟨tokens,nTokens,hpush⟩ := g'.pushToken_frame token
  have hkept : g'.window=g.window := rfl
  have hlength : (g.sampled++[token]).length=g.sampled.length+1 := List.length_append
  rw [hpush] at hwindow hcount ⊢
  rw [hkept,h.window,Window.slide_rtake (by decide),List.append_assoc] at hwindow
  refine ⟨hcount,hwindow,?_,?_,?_,?_,?_⟩
  · change g.outLen+1=(g.sampled++[token]).length
    rw [hlength,h.length]
  · intro i hi
    change i∈g.stores++[g.outLen]++[g.outLen+1] at hi
    change i ≤ g.outLen+1
    obtain hi | hi := List.mem_append.mp hi
    · obtain hi | hi := List.mem_append.mp hi
      · exact Nat.le_succ_of_le (h.stores i hi)
      · rw [List.mem_singleton.mp hi]
        exact Nat.le_succ _
    · exact (List.mem_singleton.mp hi).le
  · have htext := text_putChar g₀ (charOf token)
    have hbefore : g₀.text=g.sampled.map charOf := h.text
    rw [hbefore] at htext
    change g'.text=(g.sampled++[token]).map charOf
    rw [List.map_append]
    exact htext
  · exact Function.update_self ..
  · have hbefore : ∀ i∈List.range g.sampled.length,
        (p++(g.sampled++[token]).take i).rtake 512=(p++g.sampled.take i).rtake 512 := by
      intro i hi
      have hlt := List.mem_range.mp hi
      rw [List.take_append_of_le_length hlt.le]
    change g.evals++[g.window]=
      (List.range (g.sampled++[token]).length).map fun i => (p++(g.sampled++[token]).take i).rtake 512
    rw [hlength,List.range_succ,List.map_append,List.map_congr_left hbefore,← h.evals,
      List.map_singleton,List.take_left' rfl,h.window]

theorem llmEval_take (c : Context) (ts : List Int32) (n : Int32) (malloc : Option Nat) :
    Llm.llmEval c ts n malloc=Llm.llmEval c (ts.take n.toInt.toNat) n malloc := by
  unfold Llm.llmEval
  rw [List.take_take,Nat.min_self]

theorem Follows.isWindow (h : g.Follows p) (hp : p≠[]) : Window g.window := by
  have hpos : 0 < p.length := List.length_pos_of_ne_nil hp
  have hlen := Window.length_rtake (p++g.sampled) 512
  rw [List.length_append] at hlen
  rw [h.window]
  refine ⟨List.ne_nil_of_length_pos ?_,?_⟩
  · omega
  · omega

/-- llm_sample finds what llm_eval has stored. -/
theorem Follows.eval (h : g.Follows p) (hp : p≠[]) (q : Nat) :
    ∃ c,Llm.llmEval g.context g.tokens.ints (Int32.ofNat g.nTokens) (some q)=(c,true) ∧
      Llm.llmSample c=some (Api.llmSample g.window) := by
  have hwindow := h.isWindow hp
  have hcount : (Int32.ofNat g.nTokens).toInt.toNat=g.nTokens := by
    rw [← length_window h.count,hwindow.count]
    rfl
  obtain ⟨c,heval,-,-,hsample⟩ := hwindow.eval g.context q
  rw [length_window h.count] at heval
  rw [llmEval_take,hcount]
  exact ⟨c,heval,hsample⟩

/-- The turns end with `turns` or with the room for text. -/
theorem Follows.loop {mallocs : Nat → Option Nat} (hp : p≠[]) (hmallocs : ∀ i,mallocs i≠none)
    {outputSize turns i : Nat} (h : g.Follows p) (hroom : g.outLen < outputSize) :
    (generateLoop mallocs outputSize turns i g).1.Follows p ∧
      (generateLoop mallocs outputSize turns i g).1.outLen=
        g.outLen+min turns (outputSize-1-g.outLen) ∧
      (generateLoop mallocs outputSize turns i g).2=
        .length (g.outLen+min turns (outputSize-1-g.outLen)) := by
  induction turns generalizing g i with
  | zero =>
    rw [Nat.zero_min]
    exact ⟨h,rfl,rfl⟩
  | succ turns ih =>
    rw [generateLoop]
    by_cases hlen : g.outLen+1 < outputSize
    · obtain ⟨q,hq⟩ := Option.ne_none_iff_exists'.mp (hmallocs i)
      obtain ⟨c,heval,hsample⟩ := h.eval hp q
      have haccept := h.accept c (Api.llmSample g.window)
      have hnext : ({g with evals := g.evals++[g.window],context := c}.accept
          (Api.llmSample g.window)).outLen=g.outLen+1 := accept_outLen _ _
      rw [if_pos hlen,hq]
      dsimp only
      rw [heval]
      dsimp only
      rw [hsample]
      dsimp only
      have hrest := @ih _ (i+1) haccept (by omega)
      rw [hnext] at hrest
      have hsum : g.outLen+1+min turns (outputSize-1-(g.outLen+1))=
          g.outLen+min (turns+1) (outputSize-1-g.outLen) := by omega
      rwa [hsum] at hrest
    · have hzero : min (turns+1) (outputSize-1-g.outLen)=0 := by omega
      rw [if_neg hlen,hzero]
      exact ⟨h,rfl,rfl⟩

end Turn

/-- The array and the stores make the loop on a list of tokens and a text. -/
theorem generateLoop_refines (mallocs : Nat → Option Nat) (outputSize : Nat) {turns i : Nat}
    (h : g.nTokens ≤ 512) :
    Llm.generateLoop mallocs outputSize turns i g.window g.text g.context=
      ((generateLoop mallocs outputSize turns i g).1.context,
        match (generateLoop mallocs outputSize turns i g).2 with
        | .length _ => .text (generateLoop mallocs outputSize turns i g).1.text
        | .failed => .failed
        | .badRead => .badRead) := by
  induction turns generalizing g i with
  | zero => rfl
  | succ turns ih =>
    have htext : g.text.length=g.outLen := by rw [text,List.length_map,List.length_range]
    have heval : Llm.llmEval g.context g.window (Int32.ofNat g.window.length) (mallocs i)=
        Llm.llmEval g.context g.tokens.ints (Int32.ofNat g.nTokens) (mallocs i) := by
      have hcount : (Int32.ofNat g.nTokens).toInt.toNat=g.nTokens := by
        rw [Int32.toInt_ofNat_of_lt (lt_of_le_of_lt h (by decide))]
        rfl
      rw [length_window h,llmEval_take g.context g.tokens.ints,hcount]
      rfl
    rw [Llm.generateLoop,generateLoop,htext,heval]
    by_cases hroom : g.outLen+1 < outputSize
    · rw [if_pos hroom,if_pos hroom]
      dsimp only
      cases hc : Llm.llmEval g.context g.tokens.ints (Int32.ofNat g.nTokens) (mallocs i) with
      | mk c ok =>
        cases ok with
        | false => rfl
        | true =>
          dsimp only
          cases hs : Llm.llmSample c with
          | none => rfl
          | some token =>
            let g' : Generator := {g with evals := g.evals++[g.window],context := c}
            have hnext := @ih (g'.accept token) (i+1) (accept_count (g := g') h token)
            have hwindow : (g'.accept token).window=Api.pushToken g.window token :=
              accept_window (g := g') h token
            rw [hwindow,accept_text,accept_context] at hnext
            exact hnext
    · rw [if_neg hroom,if_neg hroom]

/-- The tokens of the first 512 bytes of a prompt. -/
theorem follows_start (c : Context) (prompt : List UInt8) (tokens : TokenArray)
    (memory : Memory) :
    ((⟨tokens.tokenize prompt,(llmTokenize prompt 512).length,0,memory,c,[],[],[]⟩ :
      Generator).put 0 0).Follows (llmTokenize prompt 512) := by
  have hlen : (llmTokenize prompt 512).length ≤ 512 := by
    rw [llmTokenize,List.length_map,List.length_take]
    exact Nat.min_le_left 512 _
  refine ⟨hlen,?_,rfl,?_,rfl,?_,rfl⟩
  · change ((llmTokenize prompt 512)++_).take (llmTokenize prompt 512).length=
      (llmTokenize prompt 512++[]).rtake 512
    rw [List.take_left' rfl,List.append_nil,Window.rtake_of_length_le hlen]
  · intro i hi
    exact (List.mem_singleton.mp hi).le
  · change Function.update memory 0 0 0=0
    exact Function.update_self ..

/-- Whatever the context, the array of tokens and the memory at `output` hold before. -/
theorem llmGenerate_windows (c : Context) {prompt : List UInt8} (hprompt : cut prompt≠[])
    {maxTokens : Int32} (hmax : 1 ≤ maxTokens) {outputSize : Nat} (hsize : 1 ≤ outputSize)
    {mallocs : Nat → Option Nat} (hmallocs : ∀ i,mallocs i≠none) (tokens : TokenArray)
    (memory : Memory) :
    let r := llmGenerate c prompt maxTokens outputSize mallocs tokens memory
    let k := min maxTokens.toInt.toNat (outputSize-1)
    let n := min (cut prompt).length 512
    r.2=.length k ∧ (∀ i∈r.1.stores,i < outputSize) ∧ r.1.memory k=0 ∧
      r.1.sampled.length=k ∧ r.1.evals.length=k ∧
      ∀ i < k,r.1.evals[i]?=
        some ((((cut prompt).take n).map tokenOf++r.1.sampled.take i).rtake (min 512 (n+i))) := by
  intro r k n
  have hpositive : ¬(maxTokens ≤ 0 ∨ outputSize=0) := by
    rw [Int32.le_iff_toInt_le] at hmax ⊢
    have hone : (1 : Int32).toInt=1 := by decide
    have hzero : (0 : Int32).toInt=0 := by decide
    omega
  have htokens : ((cut prompt).take n).map tokenOf=llmTokenize prompt 512 := by
    change ((cut prompt).take (min (cut prompt).length 512)).map tokenOf=_
    rw [llmTokenize,Nat.min_comm,← List.take_eq_take_min]
  have hlen : (llmTokenize prompt 512).length=n := by
    rw [llmTokenize,List.length_map,List.length_take,Nat.min_comm]
  have hp : llmTokenize prompt 512≠[] := (window_tokenize hprompt).1
  obtain ⟨hfollows,hout,hreturned⟩ := @Follows.loop _ _ mallocs hp hmallocs outputSize
    maxTokens.toInt.toNat 0 (follows_start c prompt tokens memory) hsize
  change _=0+min maxTokens.toInt.toNat (outputSize-1) at hout
  change _=Returned.length (0+min maxTokens.toInt.toNat (outputSize-1)) at hreturned
  have hr : r=generateLoop mallocs outputSize maxTokens.toInt.toNat 0
      ((⟨tokens.tokenize prompt,(llmTokenize prompt 512).length,0,memory,c,[],[],[]⟩ :
        Generator).put 0 0) := if_neg hpositive
  rw [Nat.zero_add,← hr] at hout hreturned
  rw [← hr] at hfollows
  have hsampled : r.1.sampled.length=k := by rw [← hfollows.length,hout]
  refine ⟨hreturned,?_,?_,hsampled,?_,?_⟩
  · intro i hi
    have hle := hfollows.stores i hi
    omega
  · have hnul := hfollows.nul
    rwa [hout] at hnul
  · rw [hfollows.evals,List.length_map,List.length_range,hsampled]
  · intro i hi
    have htotal : (llmTokenize prompt 512++r.1.sampled.take i).length=n+i := by
      rw [List.length_append,List.length_take,hlen]
      omega
    rw [hfollows.evals,List.getElem?_map,List.getElem?_range (by omega),htokens,← htotal,
      Window.rtake_min]
    rfl

theorem zeros_size : (List.replicate 512 (0 : Int32)).length=512 := List.length_replicate

/-- A prompt of two bytes, with room for two more. -/
theorem llmGenerate_windows_two :
    let r := llmGenerate (llmInit fun _ => none) [104,105] 16 3 (fun i => some (4096+i))
      ⟨List.replicate 512 0,zeros_size⟩ (fun _ => 255)
    r.2=.length 2 ∧ (∀ i∈r.1.stores,i < 3) ∧ r.1.memory 2=0 ∧
      r.1.sampled.length=2 ∧ r.1.evals.length=2 ∧
      ∀ i < 2,r.1.evals[i]?=
        some ((((cut [104,105]).take 2).map tokenOf++r.1.sampled.take i).rtake (min 512 (2+i))) :=
  llmGenerate_windows (llmInit fun _ => none) (by decide) (by decide) (by decide)
    (fun _ => Option.some_ne_none _) ⟨List.replicate 512 0,zeros_size⟩ (fun _ => 255)

end Generator

end Cllm.Llm
