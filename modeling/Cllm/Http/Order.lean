import Mathlib.Data.List.Nodup
import Cllm.Http.Pieces

namespace Cllm.Http

open Libc

/-- The name of a header line, in lower case. -/
def nameOf (h : HeaderLine) : List UInt8 := (h.1.takeWhile fun c => c≠58).map lowerCase

/-- The number in the Content-Length line, or 0 when there is no such line. -/
def NumberSent (hs : List HeaderLine) (n : Nat) : Prop :=
  (∃ h∈hs,named contentLengthName h.1=true ∧ Written h.1 n) ∨
    (∀ h∈hs,named contentLengthName h.1=false) ∧ n=0

def Message.reorder (m : Message) (hs : List HeaderLine) : Message := {m with headers := hs}

/-- What http_parse_request returns of the body and the fields that tell about it. -/
def framed (m : Message) : Option (Option (Nat × CField 64 × Nat × CField httpRequestBodySize)) :=
  (httpParseRequest m.text m.text.length).map (Option.map fun r =>
    (r.contentLength,r.contentType,r.bodyLength,r.body))

def OrderFree (m : Message) : Prop :=
  ∀ hs : List HeaderLine,hs.Perm m.headers → framed (m.reorder hs)=framed m

/-- content_length is the number sent, and a number that is too large is rejected. -/
def LengthTrue (m : Message) : Prop :=
  ∀ n,NumberSent m.headers n →
    (∀ r,httpParseRequest m.text m.text.length=some (some r) → r.contentLength=n) ∧
    (2^32 ≤ n → httpParseRequest m.text m.text.length=some none)

/-- The line with this name that is read last: the one in which the copied header area ends, or
else the one among the lines in front of the last. With no header lines it comes from the body. -/
def counted (name : List UInt8) (m : Message) : List UInt8 :=
  if m.headers=[] then ((bareLines m.body).reverse.find? (named name)).getD []
  else if named name (cutLine m.headers) then cutLine m.headers
  else ((m.headers.dropLast.map Subtype.val).find? (named name)).getD []

theorem foldl_reads {β : Type} (f : List UInt8 → β) (p : List UInt8 → Bool)
    (ls : List (List UInt8)) (v : β) :
    ls.foldl (fun v l => (if p l then some (f l) else none).getD v) v=
      ((ls.reverse.find? p).map f).getD v := by
  induction ls using List.reverseRecOn with
  | nil => rfl
  | append_singleton ls l ih =>
    rw [List.foldl_append,List.reverse_append,ih]
    cases hl : p l <;> simp [hl]

theorem find_unique {α : Type} {p : α → Bool} {xs ys : List α} (hmem : ∀ a,a∈xs ↔ a∈ys)
    (h : ∀ a∈xs,∀ b∈xs,p a=true → p b=true → a=b) : xs.find? p=ys.find? p := by
  cases hx : xs.find? p with
  | none =>
    rw [eq_comm,List.find?_eq_none]
    intro a ha
    exact List.find?_eq_none.mp hx a ((hmem a).mpr ha)
  | some a =>
    have ha := List.mem_of_find?_eq_some hx
    have hpa := List.find?_some hx
    cases hy : ys.find? p with
    | none => exact absurd hpa (List.find?_eq_none.mp hy a ((hmem a).mp ha))
    | some b =>
      have hb := (hmem b).mpr (List.mem_of_find?_eq_some hy)
      rw [h a ha b hb hpa (List.find?_some hy)]

theorem lowerCase_colon {c : UInt8} : lowerCase c=58 ↔ c=58 := by
  rw [lowerCase]
  split
  · next h =>
    have h65 : 65 ≤ c.toNat := UInt8.le_iff_toNat_le.mp h.1
    have h90 : c.toNat ≤ 90 := UInt8.le_iff_toNat_le.mp h.2
    rw [← UInt8.toNat_inj,← UInt8.toNat_inj,UInt8.toNat_add]
    change (c.toNat+32)%256=58 ↔ c.toNat=58
    omega
  · rfl

theorem nameOf_named {name : List UInt8} {h : HeaderLine} (hc : 58∈name)
    (hn : named name h.1=true) : nameOf h=(name.map lowerCase).takeWhile fun c => c≠58 := by
  have hname : (h.1.take name.length).map lowerCase=name.map lowerCase := of_decide_eq_true hn
  have hline : h.1.map lowerCase=name.map lowerCase++(h.1.drop name.length).map lowerCase := by
    rw [← hname,← List.map_append,List.take_append_drop]
  have hlower : nameOf h=(h.1.map lowerCase).takeWhile fun c => c≠58 := by
    rw [nameOf,List.takeWhile_map]
    congr 2
    funext c
    simp [lowerCase_colon]
  have hstop : ¬∀ c∈name.map lowerCase,decide (c≠58)=true := by
    intro hall
    have h58 := hall 58 (List.mem_map.mpr ⟨58,hc,lowerCase_colon.mpr rfl⟩)
    simp at h58
  rw [hlower,hline,List.takeWhile_append,if_neg]
  intro hlen
  exact hstop (List.takeWhile_eq_self_iff.mp ((List.takeWhile_prefix _).eq_of_length hlen))

/-- Of the lines with distinct names one at most has this name. -/
theorem named_once {name : List UInt8} {hs : List HeaderLine} (hc : 58∈name)
    (hnames : (hs.map nameOf).Nodup) : ∀ a∈hs.map Subtype.val,∀ b∈hs.map Subtype.val,
      named name a=true → named name b=true → a=b := by
  intro a ha b hb hna hnb
  obtain ⟨g,hg,rfl⟩ := List.mem_map.mp ha
  obtain ⟨h,hh,rfl⟩ := List.mem_map.mp hb
  have hsame : nameOf g=nameOf h := (nameOf_named hc hna).trans (nameOf_named hc hnb).symm
  rw [List.inj_on_of_nodup_map hnames hg hh hsame]

/-- What a field holds after the lines that are read. -/
theorem readLast {β : Type} (f : List UInt8 → β) {name : List UInt8} (hc : 58∈name) (m : Message)
    (hnames : (m.headers.map nameOf).Nodup) :
    (if m.headers=[] then bareLines m.body else linesRead m.headers).foldl
        (fun v l => (if named name l then some (f l) else none).getD v) (f [])=
      f (counted name m) := by
  have hget : ∀ o : Option (List UInt8),(o.map f).getD (f [])=f (o.getD []) := by
    intro o
    cases o <;> rfl
  rw [foldl_reads,hget,counted]
  by_cases hnil : m.headers=[]
  · rw [if_pos hnil,if_pos hnil]
  rw [if_neg hnil,if_neg hnil]
  obtain ⟨ls,hread,hls,-⟩ := linesRead_split hnil
  rw [hread,List.reverse_append]
  by_cases hcut : named name (cutLine m.headers)=true
  · rw [if_pos hcut]
    simp [hcut]
  · rw [if_neg hcut]
    have hmem : ∀ a,a∈(ls.map Subtype.val).reverse ↔ a∈m.headers.dropLast.map Subtype.val := by
      intro a
      rw [List.mem_reverse,List.mem_map,List.mem_map]
      simp only [hls]
    have hfind := find_unique (p := named name) hmem (by
      intro a ha b hb
      have hsub := List.map_subset Subtype.val (List.dropLast_subset m.headers)
      exact named_once hc hnames a (hsub ((hmem a).mp ha)) b (hsub ((hmem b).mp hb)))
    simp only [List.reverse_singleton,List.singleton_append,List.find?_cons,hcut,hfind]

section Framed

variable {m : Message}

theorem colon_mem : 58∈contentLengthName ∧ 58∈contentTypeName := by decide

theorem lengthOf_nil : lengthOf []%2^32=0 := by decide

theorem typeOf_nil : typeOf []=.empty 64 (by decide) := by decide

/-- content_length and content_type, from the lines that count. -/
theorem parse_counted (hnames : (m.headers.map nameOf).Nodup)
    (hlen : m.text.length ≤ httpRequestBodySize+4096) :
    ∃ r,httpParseRequest m.text m.text.length=some (some r) ∧
      r.contentLength=lengthOf (counted contentLengthName m)%2^32 ∧
      (m.headers≠[] → r.contentType=typeOf (counted contentTypeName m) ∧
        r.bodyLength=bodySize r.contentLength m.body ∧
        strncpy m.body r.bodyLength=some r.body.bytes) := by
  have hlength := readLast (fun line => lengthOf line%2^32) colon_mem.1 m hnames
  have htype := readLast typeOf colon_mem.2 m hnames
  rw [lengthOf_nil] at hlength
  rw [typeOf_nil] at htype
  by_cases hnil : m.headers=[]
  · obtain ⟨r,hr,hn,-⟩ := parse_bare m hnil hlen
    rw [if_pos hnil] at hlength
    exact ⟨r,hr,hn.trans hlength,fun hne => absurd hnil hne⟩
  · obtain ⟨r,hr,hn,ht,hbody⟩ := parse_message m hnil hlen
    rw [if_neg hnil] at hlength htype
    exact ⟨r,hr,hn.trans hlength,fun _ => ⟨ht.trans htype,hbody⟩⟩

theorem CField.eq_of_bytes {n : Nat} {f g : CField n} (h : f.bytes=g.bytes) : f=g := by
  cases f
  cases g
  cases h
  rfl

theorem parse_long (h : httpRequestBodySize+4096 < m.text.length) :
    httpParseRequest m.text m.text.length=some none := by
  rw [httpParseRequest,if_pos (Or.inr h)]
  rfl

theorem reorder_length {hs : List HeaderLine} (h : hs.Perm m.headers) :
    (m.reorder hs).text.length=m.text.length := by
  rw [Message.text_length,Message.text_length]
  have ht := (headerText_perm h).length_eq
  simp only [Message.reorder]
  omega

theorem framed_eq {r : HttpRequest} (hr : httpParseRequest m.text m.text.length=some (some r)) :
    framed m=some (some (r.contentLength,r.contentType,r.bodyLength,r.body)) := by
  rw [framed,hr]
  rfl

/-- Another order of the header lines comes out the same when the lines that count say the same. -/
theorem framed_reorder (hnames : (m.headers.map nameOf).Nodup)
    (hlen : m.text.length ≤ httpRequestBodySize+4096) {hs : List HeaderLine}
    (hp : hs.Perm m.headers) : framed (m.reorder hs)=framed m ↔
      lengthOf (counted contentLengthName (m.reorder hs))%2^32=
        lengthOf (counted contentLengthName m)%2^32 ∧
      typeOf (counted contentTypeName (m.reorder hs))=typeOf (counted contentTypeName m) := by
  by_cases hnil : m.headers=[]
  · have hsame : m.reorder hs=m := by
      rw [hnil,List.perm_nil] at hp
      rw [Message.reorder,hp,← hnil]
    rw [hsame]
    exact iff_of_true rfl ⟨rfl,rfl⟩
  have hne : (m.reorder hs).headers≠[] := by
    intro h
    change hs=[] at h
    rw [h,List.nil_perm] at hp
    exact hnil hp
  obtain ⟨r,hr,hn,hrest⟩ := parse_counted hnames hlen
  obtain ⟨r',hr',hn',hrest'⟩ := parse_counted (m := m.reorder hs)
    ((hp.map nameOf).nodup_iff.mpr hnames) (by rw [reorder_length hp]; exact hlen)
  obtain ⟨ht,hsize,hbody⟩ := hrest hnil
  obtain ⟨ht',hsize',hbody'⟩ := hrest' hne
  rw [framed_eq hr,framed_eq hr',← hn,← hn',← ht,← ht']
  simp only [Option.some.injEq,Prod.mk.injEq]
  constructor
  · rintro ⟨hl,htype,-⟩
    exact ⟨hl,htype⟩
  · rintro ⟨hl,htype⟩
    have hlength : r'.bodyLength=r.bodyLength := by
      rw [hsize,hsize',hl]
      rfl
    have hbytes : strncpy m.body r'.bodyLength=some r'.body.bytes := hbody'
    rw [hlength,hbody] at hbytes
    exact ⟨hl,htype,hlength,CField.eq_of_bytes (Option.some.inj hbytes).symm⟩

/-- content_length is the number sent when the line that counts says it. -/
theorem lengthTrue_iff (hnames : (m.headers.map nameOf).Nodup)
    (hlen : m.text.length ≤ httpRequestBodySize+4096) : LengthTrue m ↔
      ∀ n,NumberSent m.headers n → lengthOf (counted contentLengthName m)%2^32=n := by
  obtain ⟨r,hr,hn,-⟩ := parse_counted hnames hlen
  have hfits : lengthOf (counted contentLengthName m)%2^32 < 2^32 := Nat.mod_lt _ (by decide)
  constructor
  · intro h n hsent
    rw [← hn]
    exact (h n hsent).1 r hr
  · intro h n hsent
    have hread := h n hsent
    refine ⟨?_,fun hlarge => ?_⟩
    · intro r' hr'
      obtain rfl : r=r' := Option.some.inj (Option.some.inj (hr.symm.trans hr'))
      exact hn.trans hread
    · exact absurd (hread ▸ hfits) (Nat.not_lt_of_le hlarge)

end Framed

section Orders

variable {m : Message} {name : List UInt8} {h : HeaderLine} {β : Type} {f : List UInt8 → β}

theorem named_between {front behind : List HeaderLine} (hc : 58∈name)
    (hnames : ((front++h::behind).map nameOf).Nodup) (hn : named name h.1=true) :
    (∀ g∈front,named name g.1=false) ∧ ∀ g∈behind,named name g.1=false := by
  rw [List.map_append,List.map_cons,List.nodup_middle,← List.map_append,List.nodup_cons] at hnames
  have other {g : HeaderLine} (hg : g∈front++behind) : named name g.1=false := by
    rw [Bool.eq_false_iff]
    intro hng
    have hsame : nameOf g=nameOf h := (nameOf_named hc hng).trans (nameOf_named hc hn).symm
    exact hnames.1 (hsame ▸ List.mem_map_of_mem hg)
  exact ⟨fun g hg => other (List.mem_append_left _ hg),
    fun g hg => other (List.mem_append_right _ hg)⟩

/-- What is read of the line with the name, in one order of the lines. -/
theorem counted_between {front behind : List HeaderLine} (hc : 58∈name)
    (hname : 0∉name.map lowerCase) (hnames : ((front++h::behind).map nameOf).Nodup)
    (hn : named name h.1=true) (hf : ∀ s,named name s=true → f (cut s)=f s) :
    f (counted name (m.reorder (front++h::behind)))=
      f (h.1.take (shownBetween name.length front h behind)) := by
  have hpos : 0 < name.length := List.length_pos_of_mem hc
  obtain ⟨hfront,hbehind⟩ := named_between hc hnames hn
  have hne : front++h::behind≠[] := by simp
  have hcounted : counted name (m.reorder (front++h::behind))=
      if named name (cutLine (front++h::behind)) then cutLine (front++h::behind)
      else (((front++h::behind).dropLast.map Subtype.val).find? (named name)).getD [] :=
    if_neg hne
  rw [hcounted,shownBetween]
  rcases cutLine_piece hpos hname hn hfront hbehind with ⟨hw,hcut,hpiece⟩|⟨hcut,hroom⟩
  · rw [if_pos hcut,if_pos hw,hpiece,hf _ (named_take hn hw)]
  rw [hcut,if_neg Bool.false_ne_true]
  have hnone : (front.map Subtype.val).find? (named name)=none := by
    rw [List.find?_eq_none]
    intro line hline
    obtain ⟨g,hg,rfl⟩ := List.mem_map.mp hline
    rw [hfront g hg]
    exact Bool.false_ne_true
  by_cases hb : behind=[]
  · subst hb
    rw [List.dropLast_concat,hnone,if_neg,if_pos rfl]
    · rfl
    · have := hroom.resolve_right fun hc => hc.1 rfl
      omega
  · have hfind : ((front++h::behind).dropLast.map Subtype.val).find? (named name)=some h.1 := by
      rw [List.dropLast_append_of_ne_nil (by simp),List.dropLast_cons_of_ne_nil hb,
        List.map_append,List.find?_append,hnone,List.map_cons,List.find?_cons_of_pos hn]
      rfl
    rw [hfind,if_neg hb]
    rcases hroom with hroom|⟨-,hroom⟩
    · rw [if_neg (Nat.not_le_of_lt hroom),List.take_length]
      rfl
    · have hw := named_length hn
      rw [if_pos (by omega),List.take_of_length_le hroom.le]
      rfl

/-- What is read of the line with the name, in all orders of the lines. -/
theorem counted_orders (hc : 58∈name) (hname : 0∉name.map lowerCase)
    (hnames : (m.headers.map nameOf).Nodup) (hh : h∈m.headers) (hn : named name h.1=true)
    (hf : ∀ s,named name s=true → f (cut s)=f s) (v : β) :
    (∀ hs : List HeaderLine,hs.Perm m.headers → f (counted name (m.reorder hs))=v) ↔
      ∀ j,Shown name.length m.headers h j → f (h.1.take j)=v := by
  constructor
  · intro hall j hj
    obtain ⟨front,behind,hp,rfl⟩ := (shown_iff hh).mp hj
    rw [← counted_between (m := m) hc hname ((hp.map nameOf).nodup_iff.mpr hnames) hn hf]
    exact hall _ hp
  · intro hall hs hp
    obtain ⟨front,behind,rfl⟩ := List.append_of_mem (hp.mem_iff.mpr hh)
    rw [counted_between hc hname ((hp.map nameOf).nodup_iff.mpr hnames) hn hf]
    exact hall _ ((shown_iff hh).mpr ⟨front,behind,hp,rfl⟩)

/-- Without a line with the name nothing is read. -/
theorem counted_none (hpos : 0 < name.length) (hne : m.headers≠[])
    (hno : ∀ g∈m.headers,named name g.1=false) {hs : List HeaderLine}
    (hp : hs.Perm m.headers) : counted name (m.reorder hs)=[] := by
  have hhs : hs≠[] := by
    rintro rfl
    exact hne (List.nil_perm.mp hp)
  have hno' : ∀ g∈hs,named name g.1=false := fun g hg => hno g (hp.mem_iff.mp hg)
  have hcounted : counted name (m.reorder hs)=if named name (cutLine hs) then cutLine hs
      else ((hs.dropLast.map Subtype.val).find? (named name)).getD [] := if_neg hhs
  have hnone : (hs.dropLast.map Subtype.val).find? (named name)=none := by
    rw [List.find?_eq_none]
    intro line hline
    obtain ⟨g,hg,rfl⟩ := List.mem_map.mp hline
    rw [hno' g (List.dropLast_subset _ hg)]
    exact Bool.false_ne_true
  have hcut : named name (cutLine hs)=false := seen_unnamed hpos hno' _
  rw [hcounted,hcut,if_neg Bool.false_ne_true,hnone]
  rfl

end Orders

/-- No tab stands in front of the first digit. -/
def Untabbed (line : List UInt8) : Prop :=
  9∉(line.drop contentLengthName.length).takeWhile fun c => !decimal c

/-- A positive number in the line fits a size_t and has no tab in front of it, and in no order of
the lines the piece that counts ends in front of its last digit. Without a number, the digits in
these pieces come to the same. -/
structure NumberKept (hs : List HeaderLine) (h : HeaderLine) : Prop where
  written : ∀ n,Written h.1 n → 0 < n → n < 2^32 ∧ Untabbed h.1 ∧
    ∀ j,Shown contentLengthName.length hs h j → numberEnd h.1 ≤ j
  unwritten : (∀ n,¬Written h.1 n) → ∃ v,∀ j,Shown contentLengthName.length hs h j →
    decimalValue 0 ((digitsOf h.1).take (j-valueStart contentLengthName h.1))%2^32=v

/-- In all orders of the lines the pieces that count have as many bytes of the type. -/
def TypeKept (hs : List HeaderLine) (h : HeaderLine) : Prop :=
  ∃ n,∀ j,Shown contentTypeName.length hs h j →
    min (j-valueStart contentTypeName h.1) (typeText h.1).length=n

/-- The lines are such that their order does not matter. With no header lines, the number in the
last Content-Length line that the body has is 0 as a size_t. -/
structure OrderKept (m : Message) : Prop where
  bare : m.headers=[] → ∀ line,
    (bareLines m.body).reverse.find? (named contentLengthName)=some line → 2^32∣lengthOf line
  number : ∀ h∈m.headers,named contentLengthName h.1=true → NumberKept m.headers h
  type : ∀ h∈m.headers,named contentTypeName h.1=true → TypeKept m.headers h

section Kept

variable {m : Message} {h : HeaderLine}

theorem Written.front {line : List UInt8} {n : Nat} (h : Written line n) :
    ∃ s ds z,line.drop contentLengthName.length=s++(ds++z) ∧ (∀ c∈z,whitespace c) ∧
      ds≠[] ∧ (∀ c∈ds,decimal c=true) ∧ decimalValue 0 ds=n ∧ (∀ c∈s,whitespace c) ∧
      (Untabbed line ↔ 9∉s) := by
  obtain ⟨s,ds,z,hline,hs,hz,hne,hd,hn⟩ := h
  obtain ⟨d,t,ht⟩ := List.exists_cons_of_ne_nil hne
  have hfront : (line.drop contentLengthName.length).takeWhile (fun c => !decimal c)=s := by
    rw [hline,List.takeWhile_append_of_pos fun c hc => by simp [whitespace_decimal (hs c hc)],
      ht,List.cons_append,List.takeWhile_cons_of_neg (by simp [hd d (ht ▸ .head _)]),
      List.append_nil]
  exact ⟨s,ds,z,hline,hz,hne,hd,hn,hs,by rw [Untabbed,hfront]⟩

theorem lengthOf_untabbed {line : List UInt8} {n : Nat} (h : Written line n)
    (ht : Untabbed line) : lengthOf line=n := by
  obtain ⟨s,ds,z,hline,hz,hne,hd,hn,hs,htab⟩ := h.front
  obtain ⟨d,t,hdt⟩ := List.exists_cons_of_ne_nil hne
  have hblank : ∀ c∈s,decide (c=blank)=true := by
    intro c hc
    rcases hs c hc with hb|rfl
    · exact decide_eq_true hb
    · exact absurd hc (htab.mp ht)
  have hb : d≠blank := decimal_blank (hd d (hdt ▸ .head _))
  have hvalue : valueOf contentLengthName line=ds++z := by
    rw [valueOf,hline,List.dropWhile_append_of_pos hblank,hdt,List.cons_append,
      List.dropWhile_cons_of_neg (by simpa using hb)]
  rw [lengthOf,hvalue,takeWhile_digits hd hz,hn]

/-- A number that is read has no tab in front of it. -/
theorem untabbed_of_lengthOf {line : List UInt8} {n : Nat} (h : Written line n)
    (hpos : 0 < lengthOf line) : Untabbed line := by
  obtain ⟨s,ds,z,hline,hz,hne,hd,hn,hs,htab⟩ := h.front
  rw [htab]
  intro h9
  cases hdrop : s.dropWhile fun c => c=blank with
  | nil =>
    have hall := List.dropWhile_eq_nil_iff.mp hdrop 9 h9
    exact absurd hall (by decide)
  | cons c u =>
    have hc : c∈s := by
      apply (List.dropWhile_sublist fun c => decide (c=blank)).subset
      rw [hdrop]
      exact .head _
    have hvalue : valueOf contentLengthName line=c::(u++(ds++z)) := by
      rw [valueOf,hline,List.dropWhile_append,hdrop]
      rfl
    have hzero : lengthOf line=0 := by
      rw [lengthOf,hvalue,List.takeWhile_cons_of_neg (by simp [whitespace_decimal (hs c hc)])]
      rfl
    omega

theorem shown_some (w : Nat) (hs : List HeaderLine) (h : HeaderLine) : ∃ j,Shown w hs h j := by
  by_cases hw : w ≤ room (hs.erase h) h.1.length
  · exact ⟨_,.last hw⟩
  · exact ⟨_,.missed (Nat.lt_of_not_le hw)⟩

/-- A positive number is read in every order just when nothing of it is ever missing. -/
theorem written_kept {n : Nat} (hw : Written h.1 n) (hpos : 0 < n) (hs : List HeaderLine) :
    (∀ j,Shown contentLengthName.length hs h j → lengthOf (h.1.take j)%2^32=n) ↔
      n < 2^32 ∧ Untabbed h.1 ∧ ∀ j,Shown contentLengthName.length hs h j → numberEnd h.1 ≤ j := by
  constructor
  · intro hall
    have hle (j : Nat) : lengthOf (h.1.take j) ≤ lengthOf h.1 := lengthOf_mono (List.take_prefix _ _)
    have hwhole : lengthOf h.1=n := by
      obtain ⟨j,hj⟩ := shown_some contentLengthName.length hs h
      have hread := hall j hj
      have hmod := Nat.mod_le (lengthOf (h.1.take j)) (2^32)
      have hlej := hle j
      rcases lengthOf_written hw with he|he
      · exact he
      · omega
    have hfits : n < 2^32 := by
      obtain ⟨j,hj⟩ := shown_some contentLengthName.length hs h
      rw [← hall j hj]
      exact Nat.mod_lt _ (by decide)
    refine ⟨hfits,untabbed_of_lengthOf hw (by omega),fun j hj => Nat.le_of_not_lt fun hlt => ?_⟩
    have hread := hall j hj
    have hmod := Nat.mod_le (lengthOf (h.1.take j)) (2^32)
    have hshort := lengthOf_short hlt (by omega)
    omega
  · rintro ⟨hfits,ht,hall⟩ j hj
    rw [lengthOf_whole (hall j hj),lengthOf_untabbed hw ht,Nat.mod_eq_of_lt hfits]

theorem typeOf_take_iff (line : List UInt8) (i j : Nat) : typeOf (line.take i)=typeOf (line.take j) ↔
    min (i-valueStart contentTypeName line) (typeText line).length=
      min (j-valueStart contentTypeName line) (typeText line).length := by
  rw [← List.take_eq_take_iff,← typeText_take,← typeText_take]
  exact ⟨fun h => congrArg CField.bytes h,fun h => CField.eq_of_bytes h⟩

theorem headers_unique {name : List UInt8} {g : HeaderLine} (hc : 58∈name)
    (hnames : (m.headers.map nameOf).Nodup) (hg : g∈m.headers) (hh : h∈m.headers)
    (hng : named name g.1=true) (hnh : named name h.1=true) : g=h :=
  List.inj_on_of_nodup_map hnames hg hh ((nameOf_named hc hng).trans (nameOf_named hc hnh).symm)

theorem forall_named_iff {name : List UInt8} {K : HeaderLine → Prop} (hc : 58∈name)
    (hnames : (m.headers.map nameOf).Nodup) (hh : h∈m.headers) (hn : named name h.1=true) :
    (∀ g∈m.headers,named name g.1=true → K g) ↔ K h := by
  constructor
  · exact fun hall => hall h hh hn
  · intro hk g hg hng
    rwa [headers_unique hc hnames hg hh hng hn]

theorem names_plain : 0∉contentLengthName.map lowerCase ∧ 0∉contentTypeName.map lowerCase := by
  decide

/-- The number is kept just when one value is read in every order, the number written if there is
one. -/
theorem numberKept_iff (hs : List HeaderLine) (h : HeaderLine) : NumberKept hs h ↔
    ∃ v,(∀ j,Shown contentLengthName.length hs h j → lengthOf (h.1.take j)%2^32=v) ∧
      ∀ n,Written h.1 n → v=n := by
  constructor
  · intro hk
    by_cases hpos : ∃ n,0 < n ∧ Written h.1 n
    · obtain ⟨n,hpos,hw⟩ := hpos
      have hall := hk.written n hw hpos
      refine ⟨n,(written_kept hw hpos _).mpr hall,fun n' hw' => ?_⟩
      rw [← lengthOf_untabbed hw hall.2.1,lengthOf_untabbed hw' hall.2.1]
    have hzero (n : Nat) (hw : Written h.1 n) : n=0 := by
      by_contra hn0
      exact hpos ⟨n,Nat.pos_of_ne_zero hn0,hw⟩
    by_cases hw : Written h.1 0
    · refine ⟨0,fun j _ => ?_,fun n hw => (hzero n hw).symm⟩
      have hle : lengthOf (h.1.take j) ≤ lengthOf h.1 := lengthOf_mono (List.take_prefix _ _)
      have hl : lengthOf h.1=0 := (lengthOf_written hw).elim id id
      have hj : lengthOf (h.1.take j)=0 := by omega
      rw [hj,Nat.zero_mod]
    · have hnone (n : Nat) (hn : Written h.1 n) : False := hw (hzero n hn ▸ hn)
      obtain ⟨v,hv⟩ := hk.unwritten hnone
      exact ⟨v,fun j hj => lengthOf_take h.1 j ▸ hv j hj,fun n hn => (hnone n hn).elim⟩
  · rintro ⟨v,hv,hwritten⟩
    refine ⟨fun n hw hpos => (written_kept hw hpos _).mp ?_,fun _ => ⟨v,fun j hj => ?_⟩⟩
    · rw [← hwritten n hw]
      exact hv
    · rw [← lengthOf_take]
      exact hv j hj

/-- The length is the number sent, in every order, just when it is kept. -/
theorem number_kept (hne : m.headers≠[]) (hnames : (m.headers.map nameOf).Nodup) :
    ((∀ hs : List HeaderLine,hs.Perm m.headers →
        lengthOf (counted contentLengthName (m.reorder hs))%2^32=
          lengthOf (counted contentLengthName m)%2^32) ∧
      ∀ n,NumberSent m.headers n → lengthOf (counted contentLengthName m)%2^32=n) ↔
    ∀ h∈m.headers,named contentLengthName h.1=true → NumberKept m.headers h := by
  by_cases hno : ∀ g∈m.headers,named contentLengthName g.1=false
  · have hzero {hs : List HeaderLine} (hp : hs.Perm m.headers) :
        lengthOf (counted contentLengthName (m.reorder hs))%2^32=0 := by
      rw [counted_none (by decide) hne hno hp,lengthOf_nil]
    have hown : lengthOf (counted contentLengthName m)%2^32=0 := hzero (List.Perm.refl _)
    refine iff_of_true ⟨fun hs hp => (hzero hp).trans hown.symm,fun n hn => ?_⟩
      fun h hh hn => ?_
    · rcases hn with ⟨h,hh,hn,-⟩|⟨-,rfl⟩
      · rw [hno h hh] at hn
        cases hn
      · exact hown
    · rw [hno h hh] at hn
      cases hn
  simp only [not_forall,Bool.not_eq_false] at hno
  obtain ⟨h,hh,hn⟩ := hno
  have hsent (n : Nat) : NumberSent m.headers n ↔ Written h.1 n := by
    constructor
    · rintro (⟨g,hg,hng,hw⟩|⟨hno,-⟩)
      · rwa [headers_unique colon_mem.1 hnames hg hh hng hn] at hw
      · rw [hno h hh] at hn
        cases hn
    · exact fun hw => .inl ⟨h,hh,hn,hw⟩
  have horders (v : Nat) := counted_orders (f := fun line => lengthOf line%2^32) colon_mem.1
    names_plain.1 hnames hh hn (fun s hs => congrArg (·%2^32) (lengthOf_cut hs)) v
  rw [forall_named_iff colon_mem.1 hnames hh hn,numberKept_iff]
  simp only [hsent]
  constructor
  · rintro ⟨hsame,htrue⟩
    exact ⟨_,(horders _).mp hsame,htrue⟩
  · rintro ⟨v,hv,hwritten⟩
    have hall := (horders v).mpr hv
    have hown : lengthOf (counted contentLengthName m)%2^32=v := hall _ (List.Perm.refl _)
    exact ⟨fun hs hp => (hall hs hp).trans hown.symm,fun n hw => hown.trans (hwritten n hw)⟩

/-- The type is the same in every order just when the pieces that count have as much of it. -/
theorem type_kept (hne : m.headers≠[]) (hnames : (m.headers.map nameOf).Nodup) :
    (∀ hs : List HeaderLine,hs.Perm m.headers →
      typeOf (counted contentTypeName (m.reorder hs))=typeOf (counted contentTypeName m)) ↔
    ∀ h∈m.headers,named contentTypeName h.1=true → TypeKept m.headers h := by
  by_cases hno : ∀ g∈m.headers,named contentTypeName g.1=false
  · have hnil {hs : List HeaderLine} (hp : hs.Perm m.headers) :=
      counted_none (by decide) hne hno hp
    have hown : counted contentTypeName m=[] := hnil (List.Perm.refl _)
    refine iff_of_true (fun hs hp => by rw [hnil hp,hown]) fun h hh hn => ?_
    rw [hno h hh] at hn
    cases hn
  simp only [not_forall,Bool.not_eq_false] at hno
  obtain ⟨h,hh,hn⟩ := hno
  have horders (v : CField 64) := counted_orders (f := typeOf) colon_mem.2 names_plain.2 hnames
    hh hn (fun s hs => CField.eq_of_bytes (typeText_cut hs)) v
  rw [forall_named_iff colon_mem.2 hnames hh hn,horders]
  obtain ⟨i,hi⟩ := shown_some contentTypeName.length m.headers h
  constructor
  · intro hall
    refine ⟨_,fun j hj => (typeOf_take_iff h.1 j i).mp ?_⟩
    rw [hall j hj,hall i hi]
  · rintro ⟨n,hall⟩
    have hsame (j : Nat) (hj : Shown contentTypeName.length m.headers h j) :
        typeOf (h.1.take j)=typeOf (h.1.take i) :=
      (typeOf_take_iff h.1 j i).mpr ((hall j hj).trans (hall i hi).symm)
    have hown : typeOf (counted contentTypeName m)=typeOf (h.1.take i) :=
      (horders _).mpr hsame _ (List.Perm.refl _)
    rw [hown]
    exact hsame

end Kept

/-- A request comes out the same in every order of its header lines, with the length that was
sent, when it is too long, so that it is rejected, or the header lines have such lengths that in
no order the copy of the header area ends inside what it is read for. -/
theorem order_free (m : Message) (hnames : (m.headers.map nameOf).Nodup) :
    OrderFree m ∧ LengthTrue m ↔ httpRequestBodySize+4096 < m.text.length ∨ OrderKept m := by
  by_cases hlen : m.text.length ≤ httpRequestBodySize+4096
  swap
  · have hlong := Nat.lt_of_not_le hlen
    refine iff_of_true ⟨?_,?_⟩ (Or.inl hlong)
    · intro hs hp
      rw [framed,framed,parse_long hlong,parse_long (by rw [reorder_length hp]; exact hlong)]
    · intro n _
      rw [parse_long hlong]
      exact ⟨fun r hr => by simp at hr,fun _ => rfl⟩
  rw [or_iff_right (Nat.not_lt_of_le hlen),lengthTrue_iff hnames hlen]
  by_cases hnil : m.headers=[]
  · have hfree : OrderFree m := by
      intro hs hp
      rw [hnil,List.perm_nil] at hp
      rw [Message.reorder,hp,← hnil]
    have hcounted : counted contentLengthName m=
        ((bareLines m.body).reverse.find? (named contentLengthName)).getD [] := if_pos hnil
    have hsent (n : Nat) : NumberSent m.headers n ↔ n=0 := by
      rw [NumberSent,hnil]
      simp
    rw [and_iff_right hfree,hcounted]
    simp only [hsent,forall_eq]
    constructor
    · intro hzero
      refine ⟨fun _ line hline => ?_,by simp [hnil],by simp [hnil]⟩
      rw [hline] at hzero
      exact Nat.dvd_of_mod_eq_zero hzero
    · intro hk
      cases hline : (bareLines m.body).reverse.find? (named contentLengthName) with
      | none => exact lengthOf_nil
      | some line => exact Nat.mod_eq_zero_of_dvd (hk.bare hnil line hline)
  · have hfree : OrderFree m ↔
        (∀ hs : List HeaderLine,hs.Perm m.headers →
          lengthOf (counted contentLengthName (m.reorder hs))%2^32=
            lengthOf (counted contentLengthName m)%2^32) ∧
        ∀ hs : List HeaderLine,hs.Perm m.headers →
          typeOf (counted contentTypeName (m.reorder hs))=typeOf (counted contentTypeName m) := by
      constructor
      · intro h
        exact ⟨fun hs hp => ((framed_reorder hnames hlen hp).mp (h hs hp)).1,
          fun hs hp => ((framed_reorder hnames hlen hp).mp (h hs hp)).2⟩
      · rintro ⟨hl,ht⟩ hs hp
        exact (framed_reorder hnames hlen hp).mpr ⟨hl hs hp,ht hs hp⟩
    rw [hfree,type_kept hnil hnames,and_right_comm,number_kept hnil hnames]
    constructor
    · rintro ⟨hnumber,htype⟩
      exact ⟨fun h => absurd h hnil,hnumber,htype⟩
    · exact fun hk => ⟨hk.number,hk.type⟩

/-- The blanks make up for what the other line takes of the copy. -/
def padded : HeaderLine := ⟨cstr "Content-Length: 3        ",by decide +kernel⟩
def tag : HeaderLine := ⟨cstr "A: b",by decide +kernel⟩
def postPadded : Message := post [padded,tag] [97,98,99]

theorem order_free_padded : OrderFree postPadded ∧ LengthTrue postPadded := by
  apply (order_free _ (by decide)).mpr
  have hlength : lengthOf padded.1=3 := by decide +kernel
  have hwritten : Written padded.1 3 :=
    ⟨[blank],[51],List.replicate 8 blank,by decide +kernel,by simp [whitespace],
      by simp [whitespace],by simp,by decide +kernel,by decide +kernel⟩
  have hothers : postPadded.headers.erase padded=[tag] := by decide +kernel
  have hnone : [tag].erase tag=[] := by decide +kernel
  refine .inr ⟨fun h => absurd h (by simp [postPadded,post]),?_,?_⟩
  · intro h hh hn
    rcases List.mem_cons.mp hh with rfl|hh
    · refine ⟨fun n hw hpos => ?_,fun hno => absurd hwritten (hno 3)⟩
      have hn3 : n=3 := by
        rcases lengthOf_written hw with he|he
        · exact he.symm.trans hlength
        · rw [hlength] at he
          cases he
      refine ⟨by omega,by rw [Untabbed]; decide +kernel,fun j hj => ?_⟩
      cases hj with
      | last hw =>
        rw [hothers]
        decide +kernel
      | missed hw =>
        rw [hothers] at hw
        exact absurd hw (by decide +kernel)
      | copied hl hf hw =>
        rw [hothers] at hl hf
        obtain rfl := List.mem_singleton.mp hl
        rw [hnone] at hf
        rw [List.sublist_nil.mp hf] at hw
        exact absurd hw (by decide +kernel)
      | whole hl hf hw => decide +kernel
    · obtain rfl := List.mem_singleton.mp hh
      exact absurd hn (by decide)
  · intro h hh hn
    rcases List.mem_cons.mp hh with rfl|hh
    · exact absurd hn (by decide)
    · obtain rfl := List.mem_singleton.mp hh
      exact absurd hn (by decide)

/-- With the Content-Length in front of a line of seventeen bytes its first digit is read, and
behind that line it is not read at all. -/
theorem order_changes_length : ¬∀ m : Message,(m.headers.map nameOf).Nodup →
    OrderFree m ∧ LengthTrue m := by
  intro hall
  let sized : HeaderLine := ⟨cstr "Content-Length: 12",by decide +kernel⟩
  let tagged : HeaderLine := ⟨cstr "X-Request-Id: abc",by decide +kernel⟩
  let m := post [sized,tagged] (cstr "\x7b\"text\":\"a\"\x7d")
  have hswap := (hall m (by decide)).1 [tagged,sized] (List.Perm.swap sized tagged [])
  obtain ⟨r,hr,hn,-⟩ := parse_message m (by simp [m,post]) (by decide)
  obtain ⟨r',hr',hn',-⟩ := parse_message (m.reorder [tagged,sized]) (by simp [Message.reorder])
    (by decide)
  have hone : lengthAfter 0 (linesRead m.headers)=1 := by decide
  have hzero : lengthAfter 0 (linesRead (m.reorder [tagged,sized]).headers)=0 := by decide
  rw [framed_eq hr,framed_eq hr',hn,hn',hone,hzero] at hswap
  simp at hswap

end Cllm.Http
