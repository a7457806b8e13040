import Mathlib.Data.List.Perm.Basic
import Cllm.Http.Body

namespace Cllm.Http

open Libc

/-- Where the value of a line with this name starts. -/
def valueStart (name line : List UInt8) : Nat :=
  name.length+((line.drop name.length).takeWhile fun c => c=blank).length

/-- The digits behind "Content-Length:" and its blanks, and where they end. -/
def digitsOf (line : List UInt8) : List UInt8 := (valueOf contentLengthName line).takeWhile decimal

def numberEnd (line : List UInt8) : Nat :=
  valueStart contentLengthName line+(digitsOf line).length

theorem dropWhile_take (p : UInt8 → Bool) (s : List UInt8) (i : Nat) :
    (s.take i).dropWhile p=(s.dropWhile p).take (i-(s.takeWhile p).length) := by
  induction s generalizing i with
  | nil => simp
  | cons c s ih =>
    cases i with
    | zero => simp
    | succ i =>
      rw [List.take_succ_cons]
      by_cases hc : p c=true
      · rw [List.dropWhile_cons_of_pos hc,List.dropWhile_cons_of_pos hc,
          List.takeWhile_cons_of_pos hc,ih,List.length_cons,Nat.add_sub_add_right]
      · rw [List.dropWhile_cons_of_neg hc,List.dropWhile_cons_of_neg hc,
          List.takeWhile_cons_of_neg hc,List.length_nil,Nat.sub_zero,List.take_succ_cons]

section Values

variable {name line : List UInt8} {p : UInt8 → Bool}

theorem valueOf_take (name line : List UInt8) (j : Nat) :
    valueOf name (line.take j)=(valueOf name line).take (j-valueStart name line) := by
  rw [valueOf,List.drop_take,dropWhile_take,Nat.sub_sub]
  rfl

theorem lengthOf_digits (line : List UInt8) : lengthOf line=decimalValue 0 (digitsOf line) := rfl

theorem digitsOf_take (line : List UInt8) (j : Nat) :
    digitsOf (line.take j)=(digitsOf line).take (j-valueStart contentLengthName line) := by
  rw [digitsOf,valueOf_take,← List.take_takeWhile]
  rfl

theorem typeText_take (line : List UInt8) (j : Nat) :
    typeText (line.take j)=(typeText line).take (j-valueStart contentTypeName line) := by
  rw [typeText,valueOf_take,← List.take_takeWhile,List.take_take,Nat.min_comm,← List.take_take]
  rfl

theorem lengthOf_take (line : List UInt8) (j : Nat) : lengthOf (line.take j)=
    decimalValue 0 ((digitsOf line).take (j-valueStart contentLengthName line)) := by
  rw [lengthOf_digits,digitsOf_take]

/-- A piece with all of the digits has the number. -/
theorem lengthOf_whole {j : Nat} (h : numberEnd line ≤ j) :
    lengthOf (line.take j)=lengthOf line := by
  rw [numberEnd] at h
  rw [lengthOf_take,List.take_of_length_le (by omega),← lengthOf_digits]

/-- A piece without the last digit has a smaller one. -/
theorem lengthOf_short {j : Nat} (h : j < numberEnd line) (hpos : 0 < lengthOf line) :
    lengthOf (line.take j) < lengthOf line := by
  have hlt : j-valueStart contentLengthName line < (digitsOf line).length ∨
      digitsOf line=[] := by
    rw [numberEnd] at h
    by_cases hnil : digitsOf line=[]
    · exact .inr hnil
    · have := List.length_pos_of_ne_nil hnil
      left
      omega
  rw [lengthOf_digits] at hpos
  rw [lengthOf_take,lengthOf_digits]
  generalize j-valueStart contentLengthName line=i at hlt
  generalize digitsOf line=ds at hpos hlt
  rcases hlt with hlt|rfl
  · obtain ⟨d,u,hd⟩ := List.exists_cons_of_ne_nil (List.drop_eq_nil_iff.not.mpr hlt.not_ge)
    have hsplit : decimalValue 0 ds=decimalValue (10*decimalValue 0 (ds.take i)+(d.toNat-48)) u := by
      rw [← decimalValue_cons,← hd]
      conv_lhs => rw [← List.take_append_drop i ds]
      exact List.foldl_append
    have hle := le_decimalValue (10*decimalValue 0 (ds.take i)+(d.toNat-48)) u
    omega
  · exact absurd hpos (Nat.lt_irrefl 0)

theorem cut_append {s : List UInt8} (hs : 0∉s) (t : List UInt8) : cut (s++t)=s++cut t := by
  have hall : ∀ c∈s,decide (c≠0)=true := by
    intro c hc
    rw [decide_eq_true_eq]
    rintro rfl
    exact hs hc
  exact List.takeWhile_append_of_pos hall

theorem cut_take_le (s : List UInt8) (n : Nat) : (cut (s.take n)).length ≤ n :=
  (List.takeWhile_sublist _).length_le.trans (List.length_take_le _ _)

theorem named_plain (hname : 0∉name.map lowerCase) (hn : named name line=true) :
    0∉line.take name.length := by
  intro h0
  have hlower : lowerCase 0=0 := by decide
  have hmem := List.mem_map_of_mem (f := lowerCase) h0
  rw [of_decide_eq_true hn,hlower] at hmem
  exact hname hmem

/-- A NUL ends a value as any other byte does. -/
theorem takeWhile_cut (hname : 0∉name.map lowerCase) (hn : named name line=true)
    (hp : p 0=false) :
    (valueOf name (cut line)).takeWhile p=(valueOf name line).takeWhile p := by
  let blanks := (line.drop name.length).takeWhile fun c => c=blank
  have hsplit : line=line.take name.length++(blanks++((valueOf name line).takeWhile p++
      (valueOf name line).dropWhile p)) := by
    rw [List.takeWhile_append_dropWhile,valueOf,List.takeWhile_append_dropWhile,
      List.take_append_drop]
  have hb : 0∉blanks := by
    intro h0
    have h0blank := List.mem_takeWhile_imp h0
    exact absurd h0blank (by decide)
  have hv : 0∉(valueOf name line).takeWhile p := by
    intro h0
    have h0p := List.mem_takeWhile_imp h0
    rw [hp] at h0p
    exact absurd h0p (by decide)
  have hcut : cut line=line.take name.length++(blanks++((valueOf name line).takeWhile p++
      cut ((valueOf name line).dropWhile p))) := by
    conv_lhs => rw [hsplit]
    rw [cut_append (named_plain hname hn),cut_append hb,cut_append hv]
  have hlen : valueStart name line+((valueOf name line).takeWhile p).length ≤
      (cut line).length := by
    have hw := named_length hn
    have hstart : valueStart name line=name.length+blanks.length := rfl
    rw [hcut,hstart]
    simp only [List.length_append,List.length_take]
    omega
  rw [← take_length_cut line,valueOf_take,← List.take_takeWhile,List.take_of_length_le]
  omega

theorem lengthOf_cut (hn : named contentLengthName line=true) :
    lengthOf (cut line)=lengthOf line := by
  have h := takeWhile_cut (p := decimal) (by decide) hn (by decide)
  exact congrArg (decimalValue 0) h

theorem typeText_cut (hn : named contentTypeName line=true) :
    typeText (cut line)=typeText line := by
  have h := takeWhile_cut (p := typeChar) (by decide) hn (by decide)
  exact congrArg (List.take 63) h

end Values

/-- How many bytes of a line the copy of the header area has when these lines stand in front of it:
as many bytes are copied as the last line has, 1023 at most, and none behind a NUL. -/
def room (front : List HeaderLine) (last : Nat) : Nat :=
  if 0∈headerText front then 0 else min last 1023-(headerText front).length

/-- How many of its first bytes can count of a line, by the lines in front of it and the length of
the last one: those that the copy has, if these have the name of `w` bytes, and otherwise all of
them, or none when it is the last itself. -/
inductive Shown (w : Nat) (hs : List HeaderLine) (h : HeaderLine) : Nat → Prop
  | last (hw : w ≤ room (hs.erase h) h.1.length) :
      Shown w hs h (room (hs.erase h) h.1.length)
  | missed (hw : room (hs.erase h) h.1.length < w) : Shown w hs h 0
  | copied {l : HeaderLine} {front : List HeaderLine} (hl : l∈hs.erase h)
      (hf : front.Sublist ((hs.erase h).erase l)) (hw : w ≤ room front l.1.length) :
      Shown w hs h (room front l.1.length)
  | whole {l : HeaderLine} {front : List HeaderLine} (hl : l∈hs.erase h)
      (hf : front.Sublist ((hs.erase h).erase l)) (hw : room front l.1.length < w) :
      Shown w hs h h.1.length

def lastLength (hs : List HeaderLine) : Nat := (hs.map fun h => h.1.length).getLastD 0

/-- What counts of a line between these. -/
def shownBetween (w : Nat) (front : List HeaderLine) (h : HeaderLine)
    (behind : List HeaderLine) : Nat :=
  if w ≤ room front (lastLength (h::behind)) then room front (lastLength (h::behind))
  else if behind=[] then 0
  else h.1.length

section Orders

variable {w : Nat} {hs front behind : List HeaderLine} {h l : HeaderLine}

theorem headerText_perm {hs' : List HeaderLine} (h : hs.Perm hs') :
    (headerText hs).Perm (headerText hs') := h.flatMap_right _

theorem room_perm {front' : List HeaderLine} (h : front.Perm front') (last : Nat) :
    room front last=room front' last := by
  have ht := headerText_perm h
  rw [room,room,ht.length_eq]
  simp only [ht.mem_iff]

theorem lastLength_concat (hs : List HeaderLine) (l : HeaderLine) :
    lastLength (hs++[l])=l.1.length := by
  rw [lastLength,List.map_append,List.map_singleton,List.getLastD_concat]

/-- The orders of the lines, by what stands in front of one of them and behind it. -/
theorem shown_iff {j : Nat} (hh : h∈hs) : Shown w hs h j ↔
    ∃ front behind,(front++h::behind).Perm hs ∧ shownBetween w front h behind=j := by
  constructor
  · intro hj
    have hlast : (hs.erase h++[h]).Perm hs :=
      List.perm_append_singleton h _ |>.trans (List.perm_cons_erase hh).symm
    -- an order with `l` at the end and the other lines behind `h`
    have order {l : HeaderLine} {front : List HeaderLine} (hl : l∈hs.erase h)
        (hf : front.Sublist ((hs.erase h).erase l)) :
        ∃ behind,(front++h::(behind++[l])).Perm hs := by
      obtain ⟨behind,hrest⟩ := hf.exists_perm_append
      refine ⟨behind,List.perm_middle.trans ?_⟩
      refine (List.Perm.cons h ?_).trans (List.perm_cons_erase hh).symm
      rw [← List.append_assoc]
      refine (List.perm_append_singleton l _).trans ?_
      exact (List.Perm.cons l hrest.symm).trans (List.perm_cons_erase hl).symm
    cases hj with
    | last hw => exact ⟨_,[],hlast,if_pos hw⟩
    | missed hw => exact ⟨_,[],hlast,(if_neg (Nat.not_le_of_lt hw)).trans (if_pos rfl)⟩
    | copied hl hf hw =>
      obtain ⟨behind,hp⟩ := order hl hf
      refine ⟨_,_,hp,?_⟩
      rw [shownBetween,← List.cons_append,lastLength_concat,if_pos hw]
    | whole hl hf hw =>
      obtain ⟨behind,hp⟩ := order hl hf
      refine ⟨_,_,hp,?_⟩
      rw [shownBetween,← List.cons_append,lastLength_concat,if_neg (Nat.not_le_of_lt hw),
        if_neg (by simp)]
  · rintro ⟨front,behind,hp,rfl⟩
    have hrest : (front++behind).Perm (hs.erase h) :=
      (List.cons_perm_iff_perm_erase.mp (List.perm_middle.symm.trans hp)).2
    rw [shownBetween]
    rcases List.eq_nil_or_concat behind with rfl|⟨behind,l,rfl⟩
    · rw [List.append_nil] at hrest
      have hlength : lastLength [h]=h.1.length := rfl
      rw [hlength,room_perm hrest]
      by_cases hw : w ≤ room (hs.erase h) h.1.length
      · rw [if_pos hw]
        exact .last hw
      · rw [if_neg hw,if_pos rfl]
        exact .missed (Nat.lt_of_not_le hw)
    · have hl : l∈hs.erase h := hrest.subset (by simp)
      have hfront : front.Subperm ((hs.erase h).erase l) := by
        rw [List.concat_eq_append,← List.append_assoc] at hrest
        have hmiddle := (List.perm_append_singleton l _).symm.trans hrest
        exact (List.sublist_append_left front behind).subperm.trans
          (List.cons_perm_iff_perm_erase.mp hmiddle).2.subperm
      obtain ⟨front',hp',hsub⟩ := hfront
      rw [List.concat_eq_append,← List.cons_append,lastLength_concat,room_perm hp'.symm]
      split_ifs with hw hnil
      · exact .copied hl hsub hw
      · exact absurd hnil (by simp)
      · exact .whole hl hsub (Nat.lt_of_not_le hw)

end Orders

section Copy

variable {name : List UInt8} {front behind : List HeaderLine} {h : HeaderLine}

theorem named_nil (hpos : 0 < name.length) : named name []=false := by
  rw [named,decide_eq_false_iff_not]
  intro he
  have hl := congrArg List.length he
  simp only [List.take_nil,List.map_nil,List.length_nil,List.length_map] at hl
  omega

theorem seen_ne_nil {hs : List HeaderLine} (hne : hs≠[]) (k : Nat) : seen hs k≠[] := by
  obtain ⟨xs,g,ys,line,-,hseen,-⟩ := seen_split hs k hne
  simp [hseen]

theorem getLastD_cons_of_ne_nil {α : Type} {l : List α} (hne : l≠[]) (a b : α) :
    (a::l).getLastD b=l.getLastD b := by
  rw [List.getLastD_eq_getLast?,List.getLastD_eq_getLast?,List.getLast?_cons_of_ne_nil hne]

/-- Where none of the lines has the name, what is seen last has not. -/
theorem seen_unnamed {hs : List HeaderLine} (hpos : 0 < name.length)
    (hno : ∀ g∈hs,named name g.1=false) (k : Nat) :
    named name ((seen hs k).getLastD [])=false := by
  by_cases hne : hs=[]
  · rw [hne]
    exact named_nil hpos
  · obtain ⟨xs,g,ys,line,hsplit,hseen,hline⟩ := seen_split hs k hne
    rw [hseen,List.getLastD_concat,Bool.eq_false_iff]
    intro hn
    have hg := hno g (by simp [hsplit])
    rw [named_mono hline hn] at hg
    cases hg

/-- What is seen last of the first `k` bytes has the name just when they end in the line with the
name, and behind it. -/
theorem seen_piece (hpos : 0 < name.length) (hn : named name h.1=true)
    (hfront : ∀ g∈front,named name g.1=false) (hbehind : ∀ g∈behind,named name g.1=false)
    (k : Nat) :
    ((headerText front).length+name.length ≤ k ∧
        (behind=[] ∨ k ≤ (headerText front).length+h.1.length) ∧
        (seen (front++h::behind) k).getLastD []=h.1.take (k-(headerText front).length)) ∨
      (¬((headerText front).length+name.length ≤ k ∧
          (behind=[] ∨ k ≤ (headerText front).length+h.1.length)) ∧
        named name ((seen (front++h::behind) k).getLastD [])=false) := by
  induction front generalizing k with
  | nil =>
    have hnil : (headerText []).length=0 := rfl
    rw [hnil,List.nil_append,Nat.zero_add,Nat.zero_add,Nat.sub_zero,seen]
    by_cases hk : k ≤ h.1.length
    · rw [if_pos hk]
      by_cases hw : name.length ≤ k
      · exact .inl ⟨hw,.inr hk,rfl⟩
      · refine .inr ⟨fun hc => hw hc.1,Bool.eq_false_iff.mpr fun hn' => hw ?_⟩
        have hle : name.length ≤ (h.1.take k).length := named_length hn'
        rw [List.length_take] at hle
        omega
    · have hlt := Nat.lt_of_not_le hk
      have hw := named_length hn
      rw [if_neg hk]
      by_cases hb : behind=[]
      · subst hb
        refine .inl ⟨by omega,.inl rfl,?_⟩
        rw [List.take_of_length_le hlt.le]
        rfl
      · refine .inr ⟨fun hc => hk (hc.2.resolve_left hb),?_⟩
        rw [getLastD_cons_of_ne_nil (seen_ne_nil hb _)]
        exact seen_unnamed hpos hbehind _
  | cons g front ih =>
    rw [List.forall_mem_cons] at hfront
    have hlen : (headerText (g::front)).length=g.1.length+2+(headerText front).length := by
      rw [headerText_cons,List.length_append,List.length_cons,List.length_cons]
      omega
    rw [hlen,List.cons_append,seen]
    by_cases hk : k ≤ g.1.length
    · rw [if_pos hk]
      refine .inr ⟨by omega,Bool.eq_false_iff.mpr fun hn' => ?_⟩
      have hg := named_mono (List.take_prefix k g.1) hn'
      rw [hfront.1] at hg
      cases hg
    · rw [if_neg hk,getLastD_cons_of_ne_nil (seen_ne_nil (by simp) _)]
      rcases ih hfront.2 (k-g.1.length-2) with ⟨hw,hin,hlast⟩|⟨hno,hlast⟩
      · refine .inl ⟨by omega,hin.imp_right (by omega),?_⟩
        rw [hlast]
        congr 1
        omega
      · refine .inr ⟨fun hc => hno ⟨by omega,hc.2.imp_right (by omega)⟩,hlast⟩

theorem take_cut_append (x y : List UInt8) (r : Nat) :
    x.take (cut ((x++y).take r)).length=cut (x.take r) := by
  induction x generalizing r with
  | nil => simp [cut]
  | cons c x ih =>
    cases r with
    | zero => simp [cut]
    | succ r =>
      have hr := ih r
      rw [cut] at hr ⊢
      rw [List.cons_append,List.take_succ_cons,List.take_succ_cons,cut]
      by_cases hc : c=0
      · simp [hc]
      · simp only [List.takeWhile_cons,hc,ne_eq,not_false_eq_true,decide_true,if_true,
          List.length_cons,List.take_succ_cons]
        exact congrArg (c::·) hr

/-- What is copied of the lines behind the first ones, unless the copy ends before. -/
theorem copiedLength_front (h0 : 0∉headerText front)
    (hk : (headerText front).length ≤ min (lastLength (h::behind)) 1023) :
    copiedLength (front++h::behind)=(headerText front).length+
      (cut ((headerText (h::behind)).take (room front (lastLength (h::behind))))).length := by
  have hlast : ((front++h::behind).map fun h => h.1.length).getLastD 0=
      lastLength (h::behind) := by
    rw [lastLength,List.map_append,List.map_cons,List.getLastD_eq_getLast?,
      List.getLast?_append_cons,List.getLastD_eq_getLast?]
  have htext : headerText (front++h::behind)=headerText front++headerText (h::behind) :=
    List.flatMap_append
  rw [copiedLength,hlast,htext,List.take_append,List.take_of_length_le hk,cut_append h0,
    List.length_append,room,if_neg h0]

/-- A copy with all of the first lines has no NUL there. -/
theorem front_copied (h : (headerText front).length ≤ copiedLength (front++behind)) :
    0∉headerText front ∧
      (headerText front).length ≤ min (lastLength (front++behind)) 1023 := by
  let k := min (lastLength (front++behind)) 1023
  have hcopied : copiedLength (front++behind)=(cut ((headerText (front++behind)).take k)).length :=
    rfl
  have htext : headerText (front++behind)=headerText front++headerText behind :=
    List.flatMap_append
  have hcut : cut ((headerText (front++behind)).take k) <+: headerText (front++behind) :=
    (List.takeWhile_prefix _).trans (List.take_prefix _ _)
  have hfront : headerText front <+: cut ((headerText (front++behind)).take k) :=
    List.prefix_of_prefix_length_le (htext ▸ List.prefix_append _ _) hcut (hcopied ▸ h)
  refine ⟨fun h0 => zero_not_mem_cut _ (hfront.subset h0),h.trans ?_⟩
  exact cut_take_le _ _

theorem named_take {line : List UInt8} {i : Nat} (hn : named name line=true)
    (hi : name.length ≤ i) : named name (line.take i)=true := by
  rw [named,List.take_take,Nat.min_eq_left hi]
  exact hn

theorem lastLength_append (front behind : List HeaderLine) (h : HeaderLine) :
    lastLength (front++h::behind)=lastLength (h::behind) := by
  rw [lastLength,lastLength,List.map_append,List.map_cons,List.getLastD_eq_getLast?,
    List.getLast?_append_cons,List.getLastD_eq_getLast?]

/-- The line that the copy ends in is what there is room for of the line with the name; or else
there is no room for the name, or room for more than the line. -/
theorem cutLine_piece (hpos : 0 < name.length) (hname : 0∉name.map lowerCase)
    (hn : named name h.1=true) (hfront : ∀ g∈front,named name g.1=false)
    (hbehind : ∀ g∈behind,named name g.1=false) :
    (name.length ≤ room front (lastLength (h::behind)) ∧
        named name (cutLine (front++h::behind))=true ∧
        cutLine (front++h::behind)=cut (h.1.take (room front (lastLength (h::behind))))) ∨
      (named name (cutLine (front++h::behind))=false ∧
        (room front (lastLength (h::behind)) < name.length ∨
          behind≠[] ∧ h.1.length < room front (lastLength (h::behind)))) := by
  have htext := headerText_cons h behind
  rcases seen_piece hpos hn hfront hbehind (copiedLength (front++h::behind)) with
    ⟨hw,-,hlast⟩|⟨hno,hlast⟩
  · obtain ⟨h0,hk⟩ := front_copied (Nat.le_trans (Nat.le_add_right _ _) hw)
    rw [lastLength_append] at hk
    have hcopied := copiedLength_front h0 hk
    have hlen : copiedLength (front++h::behind)-(headerText front).length=
        (cut ((headerText (h::behind)).take (room front (lastLength (h::behind))))).length := by
      omega
    have hle := cut_take_le (headerText (h::behind)) (room front (lastLength (h::behind)))
    have hroom : name.length ≤ copiedLength (front++h::behind)-(headerText front).length := by
      omega
    refine .inl ⟨?_,?_,?_⟩
    · rw [hlen] at hroom
      exact hroom.trans hle
    · rw [cutLine,hlast]
      exact named_take hn hroom
    · rw [cutLine,hlast,hlen,htext,take_cut_append]
  · refine .inr ⟨hlast,?_⟩
    by_contra hc
    rw [not_or,not_and,Nat.not_lt] at hc
    obtain ⟨hw,hin⟩ := hc
    have hne : room front (lastLength (h::behind))≠0 := by omega
    have h0 : 0∉headerText front := fun h0 => hne (if_pos h0)
    have hr : room front (lastLength (h::behind))=
        min (lastLength (h::behind)) 1023-(headerText front).length := if_neg h0
    have hfit : (headerText front).length ≤ min (lastLength (h::behind)) 1023 := by omega
    have hcopied := copiedLength_front h0 hfit
    have hle := cut_take_le (headerText (h::behind)) (room front (lastLength (h::behind)))
    have hshows : name.length ≤
        (cut ((headerText (h::behind)).take (room front (lastLength (h::behind))))).length := by
      have hfits := named_length hn
      have hsplit : (headerText (h::behind)).take (room front (lastLength (h::behind)))=
          h.1.take name.length++((headerText (h::behind)).take
            (room front (lastLength (h::behind)))).drop name.length := by
        conv_lhs => rw [← List.take_append_drop name.length
          ((headerText (h::behind)).take (room front (lastLength (h::behind))))]
        rw [List.take_take,Nat.min_eq_left hw,htext,List.take_append_of_le_length hfits]
      rw [hsplit,cut_append (named_plain hname hn),List.length_append,List.length_take]
      omega
    refine hno ⟨by omega,?_⟩
    by_cases hb : behind=[]
    · exact .inl hb
    · have hshort := hin hb
      exact .inr (by omega)

end Copy

end Cllm.Http
