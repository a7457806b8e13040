import Cllm.Kernel.Log

namespace Cllm.Kernel

open ByteMemory Libc

/-- A format with its arguments, whose rendering is a C string. -/
structure Message where
  format : List UInt8
  ap : List VaArg
  clean : 0∉(formatted format ap).1

def Message.text (message : Message) : List UInt8 := (formatted message.format message.ap).1

/-- The header and the front of the text, with a newline: all of the text when there is room. -/
structure IsLine (header text line : List UInt8) : Prop where
  clean : 0∉line
  parts : ∃ kept,kept <+: text ∧ line=header++kept++[10] ∧
    (header.length+text.length ≤ 510 → kept=text)

structure Proper (buffer : CharArray 512) (header text : List UInt8) (entry : Entry) : Prop where
  inside : ∀ k∈entry.stores,buffer.base ≤ k.1 ∧ k.1 < buffer.base+512
  line : IsLine header text entry.line

/-- The offset of the buffer does not wrap, and if that of vsnprintf does, what it writes last is
what it wrote first. -/
def Lands (header text : List UInt8) : Prop :=
  header.length+text.length%2^32 < 2^32 ∧
    (2^32 ≤ text.length →
      lapEnd text=header.getLast? ∧ (lastLap text).take (510-header.length) <+: text)

theorem lapEnd_mem {text : List UInt8} {c : UInt8} (h : lapEnd text=some c) : c∈text := by
  rw [lapEnd] at h
  split_ifs at h
  exact List.mem_of_getElem? h

theorem lapEnd_of_le {text : List UInt8} (h : 2^32 ≤ text.length) : ∃ c,lapEnd text=some c := by
  have hlt : 2^32*(text.length/2^32)-1 < text.length := by omega
  rw [lapEnd,if_neg (Nat.not_lt_of_le h),List.getElem?_eq_getElem hlt]
  exact ⟨_,rfl⟩

/-- The header after vsnprintf has written behind it. -/
def struck (header text : List UInt8) : List UInt8 := header.dropLast++[(lapEnd text).getD 32]

section Entry

variable {header : List UInt8} (m : Memory) (buffer : CharArray 512) (message : Message)

theorem IsHeader.split (h : IsHeader header) :
    header=header.dropLast++[32] ∧ header.dropLast.length+1=header.length := by
  have hsplit : header=header.dropLast++[32] :=
    (List.dropLast_append_getLast? 32 h.last).symm
  refine ⟨hsplit,?_⟩
  conv_rhs => rw [hsplit,List.length_append,List.length_singleton]

theorem length_struck (h : IsHeader header) (text : List UInt8) :
    (struck header text).length=header.length := by
  rw [struck,List.length_append,List.length_singleton,h.split.2]

theorem putMessage_eq (h : IsHeader header) :
    putMessage buffer header.length message.format message.ap=
      ((vsnprintfStores (buffer.base+header.length) (511-header.length) message.format
          message.ap).1,
        (header.length+message.text.length%2^32)%2^32) := by
  have hle := h.length_le
  have hroom : header.length < 512-1 := by omega
  have hword : (returned (message.text.length%2^32)).toUInt32.toNat=message.text.length%2^32 :=
    returned_word (Nat.mod_lt _ (by decide))
  rw [putMessage,if_pos hroom]
  change (_,(header.length+(returned (message.text.length%2^32)).toUInt32.toNat)%2^32)=_
  rw [hword]

/-- Header and text in the buffer, before the newline goes there. -/
theorem message_stores (h : IsHeader header) :
    let r := vsnprintfStores (buffer.base+header.length) (511-header.length) message.format
      message.ap
    At (storeBytes (storeBytes m (byteStores buffer.base header)) r.1) buffer.base
        (struck header message.text++(lastLap message.text).take (510-header.length)++[0]) ∧
      ∀ k∈r.1,buffer.base ≤ k.1 ∧ k.1 < buffer.base+511 := by
  intro r
  have hle := h.length_le
  have hpos := buffer.base_pos
  have hfits := buffer.fits
  obtain ⟨hsplit,hlen⟩ := h.split
  have hsize : 0 < 511-header.length := by omega
  have hstr : buffer.base+header.length+(511-header.length) ≤ 2^32 := by omega
  have hfront := at_byteStores m buffer.base header
  rw [hsplit,at_append,← hsplit] at hfront
  obtain ⟨hinit,hblank⟩ := hfront
  obtain ⟨hprinted,-,hbounds,-⟩ := vsnprintfStores_printed
    (storeBytes m (byteStores buffer.base header)) hsize (by omega) hstr message.format message.ap
  have hlast : buffer.base+header.length-1=buffer.base+header.dropLast.length := by omega
  have hstruck : storeBytes (storeBytes m (byteStores buffer.base header)) r.1
      (buffer.base+header.dropLast.length)=(lapEnd message.text).getD 32 := by
    have hchar : (32 : UInt8)=_ := Option.some.inj (hblank 0 Nat.one_pos)
    have hend := hprinted.front
    rw [Nat.add_zero] at hchar
    rw [hlast] at hend
    rw [hend,← hchar]
    rfl
  refine ⟨?_,fun k hk => ?_⟩
  · rw [List.append_assoc,at_append,length_struck h]
    refine ⟨?_,?_⟩
    · rw [struck,at_append]
      refine ⟨hinit.stores fun k hk => ?_,fun i hi => ?_⟩
      · have hk' := hbounds k hk
        omega
      · obtain rfl : i=0 := Nat.lt_one_iff.mp hi
        exact congrArg some hstruck.symm
    · have hbytes := hprinted.bytes
      have hroom : 511-header.length-1=510-header.length := by omega
      rw [hroom] at hbytes
      exact hbytes
  · have hk' := hbounds k hk
    omega

theorem zero_not_mem_struck (h : IsHeader header) : 0∉struck header message.text := by
  rw [struck,List.mem_append,List.mem_singleton,not_or]
  refine ⟨fun hmem => h.clean (List.dropLast_subset _ hmem),fun hzero => ?_⟩
  cases hend : lapEnd message.text with
  | none =>
    rw [hend] at hzero
    exact absurd hzero (by decide)
  | some c =>
    rw [hend] at hzero
    have hc : (0 : UInt8)=c := hzero
    exact message.clean (hc ▸ lapEnd_mem hend)

/-- What is in the buffer before the newline goes there. -/
def written (header text : List UInt8) : List UInt8 :=
  struck header text++(lastLap text).take (510-header.length)

/-- Where the newline goes. -/
def newlineOffset (header text : List UInt8) : Nat :=
  min 510 ((header.length+text.length%2^32)%2^32)

theorem length_written (h : IsHeader header) (text : List UInt8) :
    (written header text).length=header.length+min (510-header.length) (text.length%2^32) := by
  rw [written,List.length_append,length_struck h,List.length_take,lastLap_length]

theorem newlineOffset_le (h : IsHeader header) (text : List UInt8) :
    newlineOffset header text ≤ (written header text).length := by
  have hle := h.length_le
  rw [length_written h,newlineOffset]
  omega

theorem zero_not_mem_written (h : IsHeader header) : 0∉written header message.text := by
  rw [written,List.mem_append,not_or]
  refine ⟨zero_not_mem_struck message h,fun hmem => ?_⟩
  exact message.clean (List.mem_of_mem_drop (List.mem_of_mem_take hmem))

/-- A call writes into its buffer only, and its line ends where the offset is then. -/
theorem makeEntry_eq (h : IsHeader header) :
    let entry := makeEntry m buffer header message.format message.ap
    (∀ k∈entry.stores,buffer.base ≤ k.1 ∧ k.1 < buffer.base+512) ∧
      entry.line=(written header message.text).take (newlineOffset header message.text)++[10] := by
  have hle := h.length_le
  have hfits := buffer.fits
  let offset := newlineOffset header message.text
  have hoffset : offset ≤ 510 := Nat.min_le_left ..
  have hnewline : putNewline buffer ((header.length+message.text.length%2^32)%2^32)=
      byteStores (buffer.base+offset) [10,0] := by
    have hclamp : (if (header.length+message.text.length%2^32)%2^32≥512-1 then 512-2
        else (header.length+message.text.length%2^32)%2^32)=offset := by
      change _=min 510 _
      split_ifs <;> omega
    simp only [putNewline,hclamp]
  obtain ⟨hat,hbounds⟩ := message_stores m buffer message h
  intro entry
  have hstores : entry.stores=byteStores buffer.base header++
      (vsnprintfStores (buffer.base+header.length) (511-header.length) message.format
        message.ap).1++byteStores (buffer.base+offset) [10,0] := by
    change _++(putMessage _ _ _ _).1++putNewline _ (putMessage _ _ _ _).2=_
    rw [putMessage_eq buffer message h,hnewline]
  have hline : entry.line=stringAt (storeBytes m entry.stores) buffer.base
    (2^32-buffer.base) := rfl
  refine ⟨?_,?_⟩
  · rw [hstores,List.forall_mem_append,List.forall_mem_append]
    refine ⟨⟨fun k hk => ?_,fun k hk => ?_⟩,fun k hk => ?_⟩
    · have hk' := byteStores_bounds k hk
      omega
    · have hk' := hbounds k hk
      omega
    · have hk' := byteStores_bounds k hk
      change _ ∧ k.1 < _+2 at hk'
      omega
  · have htake : ((written header message.text).take offset).length=offset :=
      List.length_take_of_le (newlineOffset_le h message.text)
    have hkept := (at_append.mp hat).1
    change At _ buffer.base (written header message.text) at hkept
    rw [← List.take_append_drop offset (written header message.text),at_append] at hkept
    rw [hline,hstores,storeBytes_append,storeBytes_append]
    have hclean : 0∉(written header message.text).take offset++[10] := by
      rw [List.mem_append,not_or]
      exact ⟨fun hmem => zero_not_mem_written message h (List.mem_of_mem_take hmem),by decide⟩
    refine At.string ?_ hclean ?_
    · rw [List.append_assoc,at_append,htake]
      refine ⟨hkept.1.stores fun k hk => ?_,at_byteStores _ _ _⟩
      have hk' := byteStores_bounds k hk
      rw [htake]
      exact .inr hk'.1
    · rw [List.length_append,htake]
      change offset+1 < _
      omega

theorem newlineOffset_of_lt (h : IsHeader header) {text : List UInt8}
    (hlt : header.length+text.length%2^32 < 2^32) :
    newlineOffset header text=(written header text).length := by
  have hle := h.length_le
  rw [length_written h,newlineOffset,Nat.mod_eq_of_lt hlt]
  omega

theorem struck_eq_iff (h : IsHeader header) (text : List UInt8) :
    struck header text=header ↔ 2^32 ≤ text.length → lapEnd text=header.getLast? := by
  have hsplit := h.split.1
  have hend : struck header text=header ↔ (lapEnd text).getD 32=32 := by
    conv_lhs => rw [hsplit]
    rw [struck,List.dropLast_concat,List.append_cancel_left_eq,List.singleton_inj]
  rw [hend,h.last]
  constructor
  · intro hd hlong
    obtain ⟨c,hc⟩ := lapEnd_of_le hlong
    rw [hc,Option.getD_some] at hd
    rw [hc,hd]
  · intro hlong
    by_cases hlen : 2^32 ≤ text.length
    · rw [hlong hlen]
      rfl
    · rw [lapEnd,if_pos (Nat.lt_of_not_le hlen)]
      rfl

theorem isLine_iff (h : IsHeader header) :
    IsLine header message.text
        ((written header message.text).take (newlineOffset header message.text)++[10]) ↔
      Lands header message.text := by
  let text := message.text
  have hle := h.length_le
  have hstruck := struck_eq_iff h text
  constructor
  · rintro ⟨-,kept,hfirst,hline,-⟩
    have hbefore := List.append_cancel_right hline
    have hlen := congrArg List.length hbefore
    rw [List.length_take_of_le (newlineOffset_le h text),List.length_append] at hlen
    have hlt : header.length+text.length%2^32 < 2^32 := by
      by_contra hwrap
      rw [newlineOffset] at hlen
      omega
    rw [newlineOffset_of_lt h hlt,List.take_length,written] at hbefore
    obtain ⟨hheader,hkept⟩ := List.append_inj hbefore (length_struck h text)
    refine ⟨hlt,fun hlong => ⟨hstruck.mp hheader hlong,?_⟩⟩
    rw [hkept]
    exact hfirst
  · rintro ⟨hlt,hlong⟩
    have hheader : struck header text=header := hstruck.mpr fun hlen => (hlong hlen).1
    rw [newlineOffset_of_lt h hlt,List.take_length]
    refine ⟨?_,(lastLap text).take (510-header.length),?_,?_,fun hroom => ?_⟩
    · rw [List.mem_append,not_or]
      exact ⟨zero_not_mem_written message h,by decide⟩
    · by_cases hlen : 2^32 ≤ text.length
      · exact (hlong hlen).2
      · rw [lastLap_short (Nat.lt_of_not_le hlen)]
        exact List.take_prefix _ _
    · rw [written,hheader]
    · change header.length+text.length ≤ 510 at hroom
      have hshort : text.length < 2^32 := by omega
      rw [lastLap_short hshort]
      exact List.take_of_length_le (by omega)

/-- Whatever is logged, the call keeps to its buffer; its line is right where the offsets are. -/
theorem makeEntry_proper_iff (h : IsHeader header) :
    Proper buffer header message.text
        (makeEntry m buffer header message.format message.ap) ↔
      Lands header message.text := by
  obtain ⟨hinside,hline⟩ := makeEntry_eq m buffer message h
  rw [← isLine_iff message h]
  constructor
  · intro hproper
    rw [← hline]
    exact hproper.line
  · intro hparts
    refine ⟨hinside,?_⟩
    rw [hline]
    exact hparts

end Entry

/-- What log_message does with the line. -/
structure Logged (buffer : CharArray 512) (level : LogLevel) (header text : List UInt8)
    (r : Entry × List Output) : Prop extends Proper buffer header text r.1 where
  outputs : r.2=outputs level r.1.line

theorem logMessage_logged_iff (m : Memory) (buffer : CharArray 512) (message : Message)
    (level : LogLevel) (file : FileName) {line : Int32} (hline : 0 ≤ line) :
    Logged buffer level (logHeader level file.text line) message.text
        (logMessage m buffer level file.text line message.format message.ap) ↔
      Lands (logHeader level file.text line) message.text := by
  have hproper := makeEntry_proper_iff m buffer message
    (logHeader_isHeader level file line)
  have hentry : (logMessage m buffer level file.text line message.format message.ap).1=
      makeEntry m buffer (logHeader level file.text line) message.format message.ap := by
    rw [logMessage,logFront_eq level file hline]
  rw [← hproper,← hentry]
  exact ⟨fun h => h.toProper,fun h => ⟨h,rfl⟩⟩

/-- The lines of log_message and log_error are a header, the front of the text and a newline, in
the buffer, if and only if the offsets do not wrap over them. -/
theorem logged_iff (m : Memory) (buffer : CharArray 512) (message : Message) :
    (∀ (level : LogLevel) (file : FileName) (line : Int32),0 ≤ line →
      (Logged buffer level (logHeader level file.text line) message.text
          (logMessage m buffer level file.text line message.format message.ap) ↔
        Lands (logHeader level file.text line) message.text)) ∧
      ∀ (code : ErrorCode) (inner : CharArray 512) (file : FileName) (line : Int32),
        (Proper buffer (errorHeader code) message.text
            (logError m buffer inner code file.text line message.format message.ap).1 ↔
          Lands (errorHeader code) message.text) := by
  refine ⟨fun level file line hline => ?_,fun code inner file line => ?_⟩
  · exact logMessage_logged_iff m buffer message level file hline
  · have hproper := makeEntry_proper_iff m buffer message (errorHeader_isHeader code)
    rw [← hproper,logError,errorFront_eq]

theorem lands_of_short {header text : List UInt8} (h : header.length+text.length < 2^32) :
    Lands header text := by
  have hlt : text.length < 2^32 := by omega
  rw [Lands,Nat.mod_eq_of_lt hlt]
  exact ⟨h,fun hlong => absurd hlong (Nat.not_le_of_lt hlt)⟩

/-- The place in the sources stands in the header of an error. -/
theorem error_logged :
    let header := cstr "[00:00:00] [ERROR] [main.c:7]: "
    let buffer : CharArray 512 := ⟨4096,by decide,by decide,by decide⟩
    Logged buffer .error header (cstr "out of memory")
      (logMessage (fun _ => 0) buffer .error (cstr "src/main.c") 7 (cstr "out of memory") []) := by
  have hlength : (cstr "src/main.c").length=10 := by decide
  have hnamed : Named (cstr "src/main.c") := ⟨by rw [hlength]; decide,by decide⟩
  have hfile : fileHeader (cstr "src/main.c") 7=cstr " [main.c:7]" := by decide
  have htext : (formatted (cstr "out of memory") []).1=cstr "out of memory" := by
    have h37 : 37∉cstr "out of memory" := by decide
    have h := formatted_text h37 [] []
    rw [List.append_nil] at h
    rw [h]
    rfl
  let file : FileName := ⟨cstr "src/main.c",by decide,by rw [hlength]; decide⟩
  let message : Message := ⟨cstr "out of memory",[],by rw [htext]; decide⟩
  intro header buffer
  have hheader : logHeader .error file.text 7=header := by
    rw [logHeader,if_pos ⟨.inl rfl,hnamed⟩,hfile]
    decide
  have hlands : Lands (logHeader .error file.text 7) message.text := by
    apply lands_of_short
    change _+(formatted (cstr "out of memory") []).1.length < _
    rw [hheader,htext]
    decide
  have hlogged := ((logged_iff (fun _ => 0) buffer message).1 .error file 7 (by decide)).mpr hlands
  change Logged buffer .error _ (formatted (cstr "out of memory") []).1 _ at hlogged
  rw [hheader,htext] at hlogged
  exact hlogged

/-- With 2^32-1 bytes the newline goes into the header. -/
theorem long_message_line (m : Memory) (buffer : CharArray 512) {ps : List Piece}
    (hps : ∀ p∈ps,p.Supported) (hlen : (specifiedOf ps).length=2^32-1)
    (hclean : 0∉specifiedOf ps) :
    let r := logMessage m buffer .info [] 0 (formatOf ps) (wordsOf ps)
    r.1.line=cstr "[00:00:00] [INFO]:\n" ∧
      ¬Logged buffer .info (logHeader .info [] 0) (specifiedOf ps) r := by
  let header := cstr "[00:00:00] [INFO]: "
  have hfront : logFront .info [] 0=header := by decide
  have hlog : logHeader .info [] 0=header := by decide
  have hheader : IsHeader header := ⟨by decide,by decide,by decide⟩
  have htext : (formatted (formatOf ps) (wordsOf ps)).1=specifiedOf ps := by
    have h := formatted_of_supported hps []
    rw [List.append_nil] at h
    rw [h]
  let message : Message := ⟨formatOf ps,wordsOf ps,by rw [htext]; exact hclean⟩
  have hmessage : message.text=specifiedOf ps := htext
  have hoffset : newlineOffset header message.text=18 := by
    rw [newlineOffset,hmessage,hlen]
    decide
  have hcut : (written header message.text).take 18=header.dropLast := by
    rw [written,struck,List.append_assoc]
    exact List.take_left' (by decide)
  intro r
  have hr : r.1=makeEntry m buffer header message.format message.ap := by
    change makeEntry _ _ (logFront .info [] 0) _ _=_
    rw [hfront]
  rw [hr,hlog,← hmessage]
  refine ⟨?_,fun hlogged => ?_⟩
  · have hline := (makeEntry_eq m buffer message hheader).2
    rw [hline,hoffset,hcut]
    decide
  · have hproper := hlogged.toProper
    rw [hr] at hproper
    have hlt := ((makeEntry_proper_iff m buffer message hheader).mp hproper).1
    rw [hmessage,hlen] at hlt
    exact absurd hlt (by decide)

theorem long_message_cut :
    let ps := repeated (2^16+1) (2^16-1)
    let buffer : CharArray 512 := ⟨4096,by decide,by decide,by decide⟩
    let r := logMessage (fun _ => 0) buffer .info [] 0 (formatOf ps) (wordsOf ps)
    (∀ p∈ps,p.Supported) ∧ (specifiedOf ps).length=2^32-1 ∧
      r.1.line=cstr "[00:00:00] [INFO]:\n" ∧
      ¬Logged buffer .info (logHeader .info [] 0) (specifiedOf ps) r := by
  have hps : ∀ p∈repeated (2^16+1) (2^16-1),p.Supported := fun p hp => repeated_supported hp
  have hlen : (specifiedOf (repeated (2^16+1) (2^16-1))).length=2^32-1 :=
    (repeated_length _ _).trans (by decide)
  exact ⟨hps,hlen,long_message_line _ _ hps hlen (zero_not_mem_repeated _ _)⟩

end Cllm.Kernel
