import Mathlib.Data.List.Induction
import Cllm.Framework.Machine
import Cllm.Framework.RingBuffer
import Cllm.Libc.Memory

namespace Cllm.Unikernel

open Libc Machine

abbrev vgaWidth : Nat := 80
abbrev vgaHeight : Nat := 25

/-- The cells of the screen. -/
abbrev vgaCells : Nat := vgaHeight*vgaWidth

def vgaEntryColor (fg bg : UInt8) : UInt8 := fg|||bg<<<4
def vgaEntry (uc color : UInt8) : UInt16 := uc.toUInt16|||color.toUInt16<<<8

/-- The index register of the CRT controller, and what it selects. -/
structure Crtc where
  index : UInt8
  registers : UInt8 → UInt8

def Crtc.outb (c : Crtc) (port : UInt16) (val : UInt8) : Crtc :=
  if port=0x3D4 then {c with index := val}
  else if port=0x3D5 then {c with registers := Function.update c.registers c.index val}
  else c

/-- Where the controller shows the cursor. -/
def Crtc.cursor (c : Crtc) : Nat := (c.registers 0x0E).toNat*256+(c.registers 0x0F).toNat

/-- The static variables of the terminal; `attached` says that terminal_buffer is not NULL. -/
structure Terminal where
  row : Nat
  column : Nat
  color : UInt8
  attached : Bool
  buffer : Nat → UInt16
  crtc : Crtc

/-- A store through terminal_buffer, or a text for serial_write. -/
inductive TerminalEvent where
  | store (index : Nat) (entry : UInt16)
  | serial (data : List UInt8)

namespace Terminal

def put (t : Terminal) (index : Nat) (entry : UInt16) : Terminal :=
  {t with buffer := Function.update t.buffer index entry}

def updateCursor (t : Terminal) : Terminal :=
  let position := UInt16.ofNat (t.row*vgaWidth+t.column)
  let crtc := t.crtc.outb 0x3D4 0x0F
  let crtc := crtc.outb 0x3D5 (position&&&(0xFF : UInt16)).toUInt8
  let crtc := crtc.outb 0x3D4 0x0E
  {t with crtc := crtc.outb 0x3D5 (position>>>8&&&(0xFF : UInt16)).toUInt8}

/-- ++terminal_row, from the last row to the first -/
def nextRow (t : Terminal) : Terminal :=
  {t with row := if t.row+1=vgaHeight then 0 else t.row+1}

end Terminal

open Terminal

/-- The loop that clears the screen, in terminal_init, up to a cell. -/
def clearCells (t : Terminal) (n : Nat) : Terminal :=
  (List.range n).foldl (fun t index => t.put index (vgaEntry 0x20 t.color)) t

def clearScreen (t : Terminal) : Terminal := clearCells t vgaCells

def terminalInit (t : Terminal) : Terminal :=
  (clearScreen {t with row := 0,column := 0,color := vgaEntryColor 7 0,attached := true}).updateCursor

def terminalPutchar (t : Terminal) (c : UInt8) : Terminal × List TerminalEvent :=
  if c=lf then ({t with column := 0}.nextRow.updateCursor,[])
  else
    let index := t.row*vgaWidth+t.column
    let entry := vgaEntry c t.color
    let t := t.put index entry
    let t := {t with column := t.column+1}
    let t := if t.column=vgaWidth then {t with column := 0}.nextRow else t
    (t.updateCursor,[.store index entry])

def terminalWrite (t : Terminal) (data : List UInt8) : Terminal × List TerminalEvent :=
  (runState terminalPutchar t data,outputs terminalPutchar t data)

def terminalWritestring (t : Terminal) (data : List UInt8) : Terminal × List TerminalEvent :=
  if t.attached then terminalWrite t (cut data) else (t,[.serial (cut data)])

/-- The cursor as an index into the screen. -/
def Terminal.position (t : Terminal) : Nat := t.row*vgaWidth+t.column

/-- The cursor is on the screen, and shown there. -/
structure OnScreen (t : Terminal) : Prop where
  row : t.row<vgaHeight
  column : t.column<vgaWidth
  shown : t.crtc.cursor=t.position

/-- How a character moves the cursor. -/
def advance (p : Nat) (c : UInt8) : Nat :=
  if c=lf then (p/vgaWidth+1)*vgaWidth%vgaCells else (p+1)%vgaCells

/-- How a text does. -/
def cursorAfter (p : Nat) (text : List UInt8) : Nat := text.foldl advance p

/-- The text puts its `j`-th character into this cell. -/
def Prints (p : Nat) (text : List UInt8) (j : Nat) (c : UInt8) (cell : Nat) : Prop :=
  text[j]?=some c ∧ c≠lf ∧ cursorAfter p (text.take j)=cell

section Cursor

variable {t : Terminal} {c : UInt8} {text : List UInt8}

theorem bytes_position (p : UInt16) :
    (p>>>8&&&(0xFF : UInt16)).toUInt8.toNat*256+(p&&&(0xFF : UInt16)).toUInt8.toNat=p.toNat := by
  have hp := p.toNat_lt
  have hhigh : (p>>>8&&&(0xFF : UInt16)).toUInt8.toNat=p.toNat/256 := by
    rw [UInt16.toNat_toUInt8,UInt16.toNat_and,UInt16.toNat_shiftRight]
    show (p.toNat>>>8&&&2^8-1)%256=_
    rw [Nat.and_two_pow_sub_one_eq_mod,Nat.shiftRight_eq_div_pow]
    omega
  have hlow : (p&&&(0xFF : UInt16)).toUInt8.toNat=p.toNat%256 := by
    rw [UInt16.toNat_toUInt8,UInt16.toNat_and]
    show (p.toNat&&&2^8-1)%256=_
    rw [Nat.and_two_pow_sub_one_eq_mod]
    omega
  rw [hhigh,hlow]
  omega

@[simp] theorem updateCursor_row (t : Terminal) : t.updateCursor.row=t.row := rfl
@[simp] theorem updateCursor_column (t : Terminal) : t.updateCursor.column=t.column := rfl
@[simp] theorem updateCursor_color (t : Terminal) : t.updateCursor.color=t.color := rfl
@[simp] theorem updateCursor_buffer (t : Terminal) : t.updateCursor.buffer=t.buffer := rfl
@[simp] theorem updateCursor_attached (t : Terminal) : t.updateCursor.attached=t.attached := rfl

/-- The controller has what update_cursor has written to it. -/
theorem updateCursor_cursor (t : Terminal) :
    t.updateCursor.crtc.cursor=t.position%2^16 := by
  have hbytes := bytes_position (UInt16.ofNat t.position)
  rw [UInt16.toNat_ofNat'] at hbytes
  exact hbytes

theorem position_lt {r c : Nat} (hr : r<vgaHeight) (hc : c<vgaWidth) :
    r*vgaWidth+c<vgaCells := by
  have hr' : r<25 := hr
  have hc' : c<80 := hc
  show r*80+c<2000
  omega

theorem onScreen_updateCursor (hr : t.row<vgaHeight) (hc : t.column<vgaWidth) :
    OnScreen t.updateCursor := by
  refine ⟨hr,hc,?_⟩
  have hlt : t.position<2000 := position_lt hr hc
  rw [updateCursor_cursor,Nat.mod_eq_of_lt (by omega)]
  rfl

theorem OnScreen.position_lt (h : OnScreen t) : t.position<vgaCells :=
  Unikernel.position_lt h.row h.column

theorem nextRow_lt (hr : t.row<vgaHeight) : t.nextRow.row<vgaHeight := by
  have hr' : t.row<25 := hr
  show (if t.row+1=25 then 0 else t.row+1)<25
  split_ifs <;> omega

/-- The first cell of the next row. -/
theorem nextRow_position (hr : t.row<vgaHeight) (hc : t.column<vgaWidth) :
    t.nextRow.row*vgaWidth=(t.position/vgaWidth+1)*vgaWidth%vgaCells := by
  have hr' : t.row<25 := hr
  have hc' : t.column<80 := hc
  show (if t.row+1=25 then 0 else t.row+1)*80=((t.row*80+t.column)/80+1)*80%2000
  split_ifs <;> omega

/-- At the end of a row that is where the next character goes anyway. -/
theorem nextRow_end (hr : t.row<vgaHeight) (hend : t.column+1=vgaWidth) :
    t.nextRow.row*vgaWidth=(t.position+1)%vgaCells := by
  have hr' : t.row<25 := hr
  have hend' : t.column+1=80 := hend
  show (if t.row+1=25 then 0 else t.row+1)*80=(t.row*80+t.column+1)%2000
  split_ifs <;> omega

theorem putchar_newline (t : Terminal) :
    terminalPutchar t lf=({t with column := 0}.nextRow.updateCursor,[]) := if_pos rfl

/-- The end of a row. -/
theorem putchar_wraps (hlf : c≠lf) (hend : t.column+1=vgaWidth) :
    terminalPutchar t c=
      ({t.put t.position (vgaEntry c t.color) with column := 0}.nextRow.updateCursor,
        [.store t.position (vgaEntry c t.color)]) := by
  rw [terminalPutchar,if_neg hlf]
  dsimp only [put]
  rw [if_pos hend]
  rfl

theorem putchar_moves (hlf : c≠lf) (hend : t.column+1≠vgaWidth) :
    terminalPutchar t c=
      (({t.put t.position (vgaEntry c t.color) with column := t.column+1} :
        Terminal).updateCursor,[.store t.position (vgaEntry c t.color)]) := by
  rw [terminalPutchar,if_neg hlf]
  dsimp only [put]
  rw [if_neg hend]
  rfl

/-- What one character does to the terminal. -/
structure Puts (t : Terminal) (c : UInt8) (t' : Terminal) (es : List TerminalEvent) : Prop where
  onScreen : OnScreen t'
  position : t'.position=advance t.position c
  color : t'.color=t.color
  buffer : t'.buffer=
    if c=lf then t.buffer else Function.update t.buffer t.position (vgaEntry c t.color)
  stores : es=if c=lf then [] else [.store t.position (vgaEntry c t.color)]

theorem terminalPutchar_puts (h : OnScreen t) (c : UInt8) :
    Puts t c (terminalPutchar t c).1 (terminalPutchar t c).2 := by
  have hrow := h.row
  have hcolumn : t.column<80 := h.column
  have hnext : ({t with column := 0} : Terminal).nextRow.row<vgaHeight := nextRow_lt hrow
  by_cases hlf : c=lf
  · subst hlf
    rw [putchar_newline]
    refine ⟨onScreen_updateCursor hnext (by decide : 0<80),?_,rfl,(if_pos rfl).symm,
      (if_pos rfl).symm⟩
    rw [advance,if_pos rfl]
    show t.nextRow.row*vgaWidth+0=_
    rw [Nat.add_zero,nextRow_position hrow h.column]
  · by_cases hend : t.column+1=vgaWidth
    · rw [putchar_wraps hlf hend]
      refine ⟨onScreen_updateCursor hnext (by decide : 0<80),?_,rfl,(if_neg hlf).symm,
        (if_neg hlf).symm⟩
      rw [advance,if_neg hlf]
      show t.nextRow.row*vgaWidth+0=_
      rw [Nat.add_zero,nextRow_end hrow hend]
    · rw [putchar_moves hlf hend]
      have hcol : t.column+1<vgaWidth := by
        show t.column+1<80
        have hend' : t.column+1≠80 := hend
        omega
      refine ⟨onScreen_updateCursor hrow hcol,?_,rfl,(if_neg hlf).symm,(if_neg hlf).symm⟩
      rw [advance,if_neg hlf]
      show t.row*vgaWidth+(t.column+1)=(t.row*vgaWidth+(t.column+1))%vgaCells
      rw [Nat.mod_eq_of_lt (position_lt hrow hcol)]

end Cursor

/-- What a text does to the terminal: the cursor follows it, each cell shows the last character
that prints there, and there is no store outside the screen. -/
structure Wrote (t : Terminal) (text : List UInt8) (t' : Terminal) (es : List TerminalEvent) :
    Prop where
  onScreen : OnScreen t'
  position : t'.position=cursorAfter t.position text
  color : t'.color=t.color
  attached : t'.attached=t.attached
  shows : ∀ j c cell,Prints t.position text j c cell →
    (∀ k d,j<k → ¬Prints t.position text k d cell) → t'.buffer cell=vgaEntry c t.color
  keeps : ∀ cell,(∀ j c,¬Prints t.position text j c cell) → t'.buffer cell=t.buffer cell
  stores : ∀ e∈es,∃ index < vgaCells,∃ entry,e=.store index entry

section Text

variable {p : Nat} {text : List UInt8}

theorem cursorAfter_append (p : Nat) (x y : List UInt8) :
    cursorAfter p (x++y)=cursorAfter (cursorAfter p x) y := List.foldl_append

theorem prints_append (p : Nat) (text : List UInt8) (c : UInt8) (j : Nat) (d : UInt8)
    (cell : Nat) : Prints p (text++[c]) j d cell ↔
      Prints p text j d cell ∨ j=text.length ∧ d=c ∧ c≠lf ∧ cursorAfter p text=cell := by
  rcases Nat.lt_trichotomy j text.length with hj|hj|hj
  · rw [Prints,Prints,List.getElem?_append_left hj,List.take_append_of_le_length hj.le]
    simp [hj.ne]
  · subst hj
    have hnone : text[text.length]?=none := List.getElem?_eq_none le_rfl
    rw [Prints,Prints,List.getElem?_concat_length,List.take_left,hnone]
    simp only [Option.some.injEq,reduceCtorEq,false_and,false_or,true_and]
    constructor
    · rintro ⟨rfl,hlf,hcell⟩
      exact ⟨rfl,hlf,hcell⟩
    · rintro ⟨rfl,hlf,hcell⟩
      exact ⟨rfl,hlf,hcell⟩
  · have hnone : text[j]?=none := List.getElem?_eq_none hj.le
    have hnone' : (text++[c])[j]?=none := List.getElem?_eq_none (by simp; omega)
    simp [Prints,hnone,hnone',hj.ne']

theorem Prints.lt {j cell : Nat} {c : UInt8} (h : Prints p text j c cell) : j<text.length := by
  obtain ⟨hj,-⟩ := List.getElem?_eq_some_iff.mp h.1
  exact hj

theorem attached_putchar (t : Terminal) (c : UInt8) :
    (terminalPutchar t c).1.attached=t.attached := by
  rw [terminalPutchar]
  split_ifs
  · rfl
  · dsimp only [put]
    split_ifs <;> rfl

theorem wrote_nil {t : Terminal} (h : OnScreen t) : Wrote t [] t [] :=
  ⟨h,rfl,rfl,rfl,fun _ _ _ hl => absurd hl.lt (Nat.not_lt_zero _),fun _ _ => rfl,by simp⟩

/-- One more character. -/
theorem Wrote.put {t t' : Terminal} {es : List TerminalEvent} (h : Wrote t text t' es)
    (c : UInt8) :
    Wrote t (text++[c]) (terminalPutchar t' c).1 (es++(terminalPutchar t' c).2) := by
  obtain ⟨hon,hpos,hcolor,hbuffer,hstores⟩ := terminalPutchar_puts h.onScreen c
  have hlast : cursorAfter t.position (text++[c])=advance (cursorAfter t.position text) c :=
    cursorAfter_append _ _ _
  refine ⟨hon,?_,hcolor.trans h.color,(attached_putchar t' c).trans h.attached,?_,?_,?_⟩
  · rw [hpos,h.position,hlast]
  · intro j d cell hl hlater
    rw [hbuffer]
    rcases (prints_append _ _ _ _ _ _).mp hl with hl|⟨rfl,rfl,hlf,rfl⟩
    · -- what is put last does not land in the same cell
      have hold := h.shows j d cell hl fun k e hk hno =>
        hlater k e hk ((prints_append _ _ _ _ _ _).mpr (.inl hno))
      split_ifs with hlf
      · exact hold
      · have hne : cell≠t'.position := by
          rintro rfl
          refine hlater text.length c hl.lt ((prints_append _ _ _ _ _ _).mpr (.inr ?_))
          exact ⟨rfl,rfl,hlf,h.position.symm⟩
        rw [Function.update_of_ne hne]
        exact hold
    · rw [if_neg hlf,h.position,Function.update_self,h.color]
  · intro cell hno
    have hold := h.keeps cell fun j d hl =>
      hno j d ((prints_append _ _ _ _ _ _).mpr (.inl hl))
    rw [hbuffer]
    split_ifs with hlf
    · exact hold
    · have hne : cell≠t'.position := by
        rintro rfl
        refine hno text.length c ((prints_append _ _ _ _ _ _).mpr (.inr ?_))
        exact ⟨rfl,rfl,hlf,h.position.symm⟩
      rw [Function.update_of_ne hne]
      exact hold
  · intro e he
    rcases List.mem_append.mp he with he|he
    · exact h.stores e he
    · rw [hstores] at he
      split_ifs at he
      · cases he
      · exact ⟨t'.position,h.onScreen.position_lt,_,List.mem_singleton.mp he⟩

/-- A further text. -/
theorem Wrote.write {t t' : Terminal} {es : List TerminalEvent} (h : Wrote t text t' es)
    (data : List UInt8) : Wrote t (text++data) (terminalWrite t' data).1
      (es++(terminalWrite t' data).2) := by
  induction data generalizing text t' es with
  | nil => simpa [terminalWrite] using h
  | cons c data ih =>
    have hrest := ih (h.put c)
    simpa [terminalWrite] using hrest

theorem clearCells_succ (t : Terminal) (n : Nat) :
    clearCells t (n+1)=(clearCells t n).put n (vgaEntry 0x20 (clearCells t n).color) := by
  rw [clearCells,List.range_succ,List.foldl_append]
  rfl

/-- What the loop leaves as it is. -/
theorem clearCells_frame (t : Terminal) (n : Nat) :
    (clearCells t n).row=t.row ∧ (clearCells t n).column=t.column ∧
      (clearCells t n).color=t.color ∧ (clearCells t n).attached=t.attached := by
  induction n with
  | zero => exact ⟨rfl,rfl,rfl,rfl⟩
  | succ n ih =>
    rw [clearCells_succ]
    exact ih

theorem clearCells_buffer (t : Terminal) (n cell : Nat) : (clearCells t n).buffer cell=
    if cell<n then vgaEntry 0x20 t.color else t.buffer cell := by
  induction n with
  | zero => exact (if_neg (Nat.not_lt_zero _)).symm
  | succ n ih =>
    rw [clearCells_succ,(clearCells_frame t n).2.2.1]
    show Function.update (clearCells t n).buffer n _ cell=_
    by_cases hn : cell=n
    · subst hn
      rw [Function.update_self,if_pos (Nat.lt_succ_self _)]
    · have hiff : cell<n+1 ↔ cell<n := by omega
      rw [Function.update_of_ne hn,ih]
      simp only [hiff]

/-- terminal_init leaves a blank screen, with the cursor in its first cell, and all else alone. -/
theorem terminalInit_spec (t : Terminal) :
    OnScreen (terminalInit t) ∧ (terminalInit t).position=0 ∧ (terminalInit t).color=7 ∧
      (terminalInit t).attached=true ∧ ∀ cell,(terminalInit t).buffer cell=
        if cell<vgaCells then vgaEntry 0x20 7 else t.buffer cell := by
  have hcolor : vgaEntryColor 7 0=7 := by decide
  rw [terminalInit]
  generalize hb : ({t with row := 0,column := 0,color := vgaEntryColor 7 0,attached := true} :
    Terminal)=blank
  have hblank : blank.row=0 ∧ blank.column=0 ∧ blank.color=7 ∧ blank.attached=true ∧
      blank.buffer=t.buffer := by
    subst hb
    exact ⟨rfl,rfl,hcolor,rfl,rfl⟩
  obtain ⟨hrow,hcolumn,hcol,hattached⟩ := clearCells_frame blank vgaCells
  rw [hblank.1] at hrow
  rw [hblank.2.1] at hcolumn
  refine ⟨onScreen_updateCursor ?_ ?_,?_,?_,?_,fun cell => ?_⟩
  · rw [clearScreen,hrow]
    decide
  · rw [clearScreen,hcolumn]
    decide
  · rw [position,updateCursor_row,updateCursor_column,clearScreen,hrow,hcolumn,Nat.zero_mul]
  · rw [updateCursor_color,clearScreen,hcol,hblank.2.2.1]
  · rw [updateCursor_attached,clearScreen,hattached,hblank.2.2.2.1]
  · rw [updateCursor_buffer,clearScreen,clearCells_buffer,hblank.2.2.1,hblank.2.2.2.2]

theorem cursorAfter_lt (hp : p<vgaCells) (text : List UInt8) : cursorAfter p text<vgaCells := by
  induction text using List.reverseRecOn with
  | nil => exact hp
  | append_singleton text c ih =>
    rw [cursorAfter_append]
    show advance _ c<_
    rw [advance]
    split_ifs
    · exact Nat.mod_lt _ (by decide)
    · exact Nat.mod_lt _ (by decide)

theorem Prints.onScreen {j cell : Nat} {c : UInt8} (h : Prints p text j c cell)
    (hp : p<vgaCells) : cell<vgaCells := h.2.2 ▸ cursorAfter_lt hp _

end Text

/-- After terminal_init and any number of terminal_writestring, the cursor is on the screen and
shown where it is, each cell of the screen shows the last character that was put there, or a blank
when there is none, and all stores have been to cells of the screen. -/
theorem screen_after (t : Terminal) (texts : List (List UInt8)) :
    let text := (texts.map cut).flatten
    let last := runState terminalWritestring (terminalInit t) texts
    Wrote (terminalInit t) text last (outputs terminalWritestring (terminalInit t) texts) ∧
      last.position=cursorAfter 0 text ∧ last.color=7 ∧
      (∀ j c cell,Prints 0 text j c cell → (∀ k d,j<k → ¬Prints 0 text k d cell) →
        last.buffer cell=vgaEntry c 7) ∧
      (∀ cell,(∀ j c,¬Prints 0 text j c cell) → last.buffer cell=
        if cell<vgaCells then vgaEntry 0x20 7 else t.buffer cell) ∧
      ∀ cell,vgaCells ≤ cell → last.buffer cell=t.buffer cell := by
  intro text last
  obtain ⟨hon,hposition,hcolor,hattached,hbuffer⟩ := terminalInit_spec t
  have hrun := history_along terminalWritestring
    (fun s texts es => s.attached=true ∧ Wrote (terminalInit t) (texts.map cut).flatten s es)
    (P := fun _ _ => True) (fun s texts es data ⟨hatt,hw⟩ _ => by
      have hwrite := hw.write (cut data)
      rw [terminalWritestring,if_pos hatt]
      refine ⟨hwrite.attached.trans hattached,?_⟩
      simpa using hwrite)
    (h := []) (o := []) (s := terminalInit t) ⟨hattached,wrote_nil hon⟩
    (along_of_forall _ (fun _ _ => trivial) _ texts)
  have hwrote : Wrote (terminalInit t) text last
      (outputs terminalWritestring (terminalInit t) texts) := by simpa using hrun.2
  have hshows := hwrote.shows
  have hkeeps := hwrote.keeps
  rw [hposition,hcolor] at hshows
  rw [hposition] at hkeeps
  have hblank (cell : Nat) (hno : ∀ j c,¬Prints 0 text j c cell) : last.buffer cell=
      if cell<vgaCells then vgaEntry 0x20 7 else t.buffer cell :=
    (hkeeps cell hno).trans (hbuffer cell)
  refine ⟨hwrote,?_,hwrote.color.trans hcolor,hshows,hblank,fun cell hcell => ?_⟩
  · rw [hwrote.position,hposition]
  · rw [hblank cell fun j c hprints =>
      Nat.not_lt_of_le hcell (hprints.onScreen (by decide)),if_neg (Nat.not_lt_of_le hcell)]

section Plain

variable {p : Nat} {text : List UInt8}

/-- Without line feeds the cursor goes round the screen. -/
theorem cursorAfter_plain (hp : p<vgaCells) (h : lf∉text) :
    cursorAfter p text=(p+text.length)%vgaCells := by
  induction text using List.reverseRecOn with
  | nil => exact (Nat.mod_eq_of_lt hp).symm
  | append_singleton text c ih =>
    rw [List.mem_append,not_or,List.mem_singleton] at h
    rw [cursorAfter_append,ih h.1]
    show advance _ c=_
    rw [advance,if_neg (Ne.symm h.2),RingBuffer.wrap_add,List.length_append]
    rfl

end Plain

/-- The last 2000 characters of a text without line feeds are on the screen, one after another
from where the cursor was. -/
theorem screen_latest {t : Terminal} (h : OnScreen t) {text : List UInt8} (hplain : lf∉text)
    {j : Nat} (hj : j<text.length) (hlast : text.length≤j+vgaCells) :
    (terminalWrite t text).1.buffer ((t.position+j)%vgaCells)=vgaEntry text[j] t.color := by
  have hwrote := (wrote_nil h).write text
  have hcursor (k : Nat) (hk : k≤text.length) :
      cursorAfter t.position (text.take k)=(t.position+k)%vgaCells := by
    have hsub : lf∉text.take k := fun hno => hplain (List.mem_of_mem_take hno)
    rw [cursorAfter_plain h.position_lt hsub,List.length_take_of_le hk]
  have hne : text[j]≠lf := fun hno => hplain (hno ▸ List.getElem_mem hj)
  refine hwrote.shows j text[j] _ ⟨List.getElem?_eq_getElem hj,hne,hcursor j hj.le⟩ ?_
  intro k d hjk hl
  have hk := hl.lt
  rw [List.nil_append] at hk
  -- the cells of the last 2000 characters differ
  have hsame : (t.position+j+(k-j))%vgaCells=(t.position+j+0)%vgaCells := by
    have hcell := hl.2.2
    rw [List.nil_append,hcursor k hk.le] at hcell
    rw [show t.position+j+(k-j)=t.position+k by omega]
    exact hcell
  have hzero := RingBuffer.wrap_injective (by omega) (by decide) hsame
  omega

end Cllm.Unikernel
