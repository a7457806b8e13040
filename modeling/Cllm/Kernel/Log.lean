import Cllm.Libc.PrintfStores

namespace Cllm.Kernel

open ByteMemory Libc

/-- log_level_t -/
inductive LogLevel where
  | debug | info | warn | error | fatal
  deriving DecidableEq

namespace LogLevel

def value : LogLevel → Nat
  | debug => 0
  | info => 1
  | warn => 2
  | error => 3
  | fatal => 4

/-- log_level_strings -/
def string : LogLevel → List UInt8
  | debug => cstr "DEBUG"
  | info => cstr "INFO"
  | warn => cstr "WARN"
  | error => cstr "ERROR"
  | fatal => cstr "FATAL"

end LogLevel

/-- error_code_t -/
inductive ErrorCode where
  | success | outOfMemory | invalidParameter | notImplemented | ioError | networkError
  | modelLoadError | inferenceError | cudaError | unknownError
  deriving DecidableEq

/-- error_code_strings -/
def ErrorCode.string : ErrorCode → List UInt8
  | success => cstr "SUCCESS"
  | outOfMemory => cstr "OUT_OF_MEMORY"
  | invalidParameter => cstr "INVALID_PARAMETER"
  | notImplemented => cstr "NOT_IMPLEMENTED"
  | ioError => cstr "IO_ERROR"
  | networkError => cstr "NETWORK_ERROR"
  | modelLoadError => cstr "MODEL_LOAD_ERROR"
  | inferenceError => cstr "INFERENCE_ERROR"
  | cudaError => cstr "CUDA_ERROR"
  | unknownError => cstr "UNKNOWN_ERROR"

def timestamp : List UInt8 := cstr "[00:00:00]"

def putTimestamp (buffer : List UInt8) : List UInt8 :=
  if buffer.length+timestamp.length < 512-1 then buffer++timestamp else buffer

def putLevel (level : LogLevel) (buffer : List UInt8) : List UInt8 :=
  if buffer.length+level.string.length+3 < 512-1 then buffer++cstr " ["++level.string++cstr "]"
  else buffer

/-- The loop for the last `/`, with `i` bytes to look at. -/
def fileNameLoop (file : List UInt8) : (i : Nat) → List UInt8
  | 0 => file
  | i+1 => if file[i]?=some 47 then file.drop (i+1) else fileNameLoop file i

/-- Its index is an `int`, and starts at `file_len - 1`. -/
def fileName (file : List UInt8) : List UInt8 :=
  fileNameLoop file ((UInt32.ofNat file.length-1).toInt32.toInt+1).toNat

/-- The digits of a line number, in reverse order, with room for `n` of them. -/
def lineDigits : (n lineNum : Nat) → List UInt8
  | 0,_ => []
  | n+1,lineNum =>
    if lineNum=0 then [] else (48+UInt8.ofNat (lineNum%10))::lineDigits n (lineNum/10)

/-- What is in `line_str`. -/
def lineStr (line : Int32) : List UInt8 :=
  (if line=0 then cstr "0" else lineDigits 15 line.toInt.toNat)++cstr ":"

/-- The copy of `line_str`, as far as there is room. -/
def putLine (buffer : List UInt8) : List UInt8 → List UInt8
  | [] => buffer
  | c::lineStr => if buffer.length < 512-1 then putLine (buffer++[c]) lineStr else buffer

def putFile (file : List UInt8) (line : Int32) (buffer : List UInt8) : List UInt8 :=
  let filename := fileName file
  if (buffer.length+filename.length+16)%2^32 < 512-1 then
    putLine (buffer++cstr " ["++filename) (lineStr line).reverse++cstr "]"
  else buffer

def putSeparator (buffer : List UInt8) : List UInt8 :=
  if buffer.length < 512-3 then buffer++cstr ": " else buffer

/-- What log_message has in its buffer when it comes to the message. -/
def logFront (level : LogLevel) (file : List UInt8) (line : Int32) : List UInt8 :=
  let buffer := putLevel level (putTimestamp [])
  putSeparator (if level.value≥LogLevel.error.value then putFile file line buffer else buffer)

/-- The same of log_error. -/
def errorFront (code : ErrorCode) : List UInt8 :=
  if code.string.length+4 < 512-1 then cstr "["++code.string++cstr "] " else []

/-- The stores of a call into its buffer, and the string that stands there afterwards. -/
structure Entry where
  stores : List (Nat × UInt8)
  line : List UInt8

/-- The vsnprintf of a call behind `offset` bytes, with the offset after it. -/
def putMessage (buffer : CharArray 512) (offset : Nat) (format : List UInt8) (ap : List VaArg) :
    List (Nat × UInt8) × Nat :=
  if offset < 512-1 then
    let written := vsnprintfStores (buffer.base+offset) (512-1-offset) format ap
    (written.1,(offset+(returned written.2).toUInt32.toNat)%2^32)
  else ([],offset)

/-- The end of the line, over the last bytes of a message that is too long. -/
def putNewline (buffer : CharArray 512) (offset : Nat) : List (Nat × UInt8) :=
  let offset := if offset≥512-1 then 512-2 else offset
  byteStores (buffer.base+offset) [10,0]

def makeEntry (m : Memory) (buffer : CharArray 512) (front format : List UInt8)
    (ap : List VaArg) : Entry :=
  let message := putMessage buffer front.length format ap
  let stores := byteStores buffer.base front++message.1++putNewline buffer message.2
  ⟨stores,stringAt (storeBytes m stores) buffer.base (2^32-buffer.base)⟩

/-- What a call gives to the devices. -/
inductive Output where
  | serial (s : List UInt8)
  | terminal (s : List UInt8)
  | halt

def outputs (level : LogLevel) (line : List UInt8) : List Output :=
  .serial line::
    ((if level.value≥LogLevel.info.value then [.terminal line] else [])++
      if level=.fatal then [.serial (cstr "SYSTEM HALTED due to fatal error\n"),.halt] else [])

/-- log_message, with its buffer on the stack. -/
def logMessage (m : Memory) (buffer : CharArray 512) (level : LogLevel) (file : List UInt8)
    (line : Int32) (format : List UInt8) (ap : List VaArg) : Entry × List Output :=
  let entry := makeEntry m buffer (logFront level file line) format ap
  (entry,outputs level entry.line)

/-- log_error, and the log_message that it ends with, in whose frame `inner` is. -/
def logError (m : Memory) (buffer inner : CharArray 512) (code : ErrorCode) (file : List UInt8)
    (line : Int32) (format : List UInt8) (ap : List VaArg) : Entry × Entry × List Output :=
  let entry := makeEntry m buffer (errorFront code) format ap
  (entry,
    logMessage (storeBytes m entry.stores) inner .error file line (cstr "%s")
      [.str (some entry.line)])

/-- A file name, which is in memory beside the buffer. -/
structure FileName where
  text : List UInt8
  clean : 0∉text
  fits : text.length+513 ≤ 2^32

/-- What is behind the last `/`. -/
def baseName (file : List UInt8) : List UInt8 := (file.reverse.takeWhile (·≠47)).reverse

/-- The file names that have a place in the line. -/
def Named (file : List UInt8) : Prop := file.length ≤ 2^31 ∧ (baseName file).length < 477

instance (file : List UInt8) : Decidable (Named file) := inferInstanceAs (Decidable (_ ∧ _))

def fileHeader (file : List UInt8) (line : Int32) : List UInt8 :=
  cstr " ["++baseName file++cstr ":"++Conversion.numeral 10 line.toInt.toNat++cstr "]"

/-- The header of log_message: time, level, and from ERROR on the place in the sources. -/
def logHeader (level : LogLevel) (file : List UInt8) (line : Int32) : List UInt8 :=
  timestamp++cstr " ["++level.string++cstr "]"++
    (if (level=.error ∨ level=.fatal) ∧ Named file then fileHeader file line else [])++cstr ": "

/-- The header of log_error. -/
def errorHeader (code : ErrorCode) : List UInt8 := cstr "["++code.string++cstr "] "

section FileName

variable {file s t : List UInt8}

theorem passed_backwards (ht : 47∉t) : ∀ c∈t.reverse,decide (c≠47)=true := by
  intro c hc
  rw [decide_eq_true_eq]
  rintro rfl
  exact ht (List.mem_reverse.mp hc)

theorem baseName_append (s : List UInt8) (ht : 47∉t) : baseName (s++47::t)=t := by
  rw [baseName,List.reverse_append,List.reverse_cons,List.append_assoc,List.singleton_append,
    List.takeWhile_append_of_pos (passed_backwards ht),List.takeWhile_cons_of_neg (by decide),
    List.append_nil,List.reverse_reverse]

theorem baseName_self (ht : 47∉t) : baseName t=t := by
  rw [baseName,List.takeWhile_eq_self_iff.mpr (passed_backwards ht),List.reverse_reverse]

theorem baseName_subset {c : UInt8} (h : c∈baseName file) : c∈file :=
  List.mem_reverse.mp ((List.takeWhile_prefix _).subset (List.mem_reverse.mp h))

/-- What the loop has passed has no `/` in it. -/
theorem fileNameLoop_eq {i : Nat} (hi : i ≤ file.length) (h : 47∉file.drop i) :
    fileNameLoop file i=baseName file := by
  induction i with
  | zero => exact (baseName_self h).symm
  | succ i ih =>
    have hdrop : file.drop i=file[i]::file.drop (i+1) := List.drop_eq_getElem_cons hi
    rw [fileNameLoop,List.getElem?_eq_getElem hi]
    by_cases hslash : file[i]=47
    · have hfile : file=file.take i++47::file.drop (i+1) := by
        rw [← hslash,← hdrop,List.take_append_drop]
      rw [if_pos (congrArg some hslash)]
      conv_rhs => rw [hfile]
      exact (baseName_append _ h).symm
    · rw [if_neg (fun hsome => hslash (Option.some.inj hsome))]
      apply ih (Nat.le_of_succ_le hi)
      rw [hdrop,List.mem_cons,not_or]
      exact ⟨Ne.symm hslash,h⟩

/-- The index does not get past 2^31, where an `int` has its sign. -/
theorem fileName_eq (h32 : file.length < 2^32) :
    fileName file=if file.length ≤ 2^31 then baseName file else file := by
  have hnone : 47∉file.drop file.length := by
    rw [List.drop_length]
    exact List.not_mem_nil
  rcases Nat.eq_zero_or_pos file.length with h0 | hpos
  · rw [List.length_eq_zero_iff.mp h0]
    decide
  · have hword : UInt32.ofNat file.length-1=UInt32.ofNat (file.length-1) := by
      apply UInt32.toNat_inj.mp
      rw [UInt32.toNat_sub_of_le,UInt32.toNat_ofNat',UInt32.toNat_ofNat',Nat.mod_eq_of_lt h32,
        Nat.mod_eq_of_lt (by omega)]
      · rfl
      · rw [UInt32.le_iff_toNat_le,UInt32.toNat_ofNat',Nat.mod_eq_of_lt h32]
        exact hpos
    rw [fileName,hword]
    change fileNameLoop file ((returned (file.length-1)).toInt+1).toNat=_
    by_cases hle : file.length ≤ 2^31
    · have hstart : ((returned (file.length-1)).toInt+1).toNat=file.length := by
        rw [returned_toInt (by omega)]
        omega
      rw [hstart,if_pos hle,fileNameLoop_eq le_rfl hnone]
    · have hneg : (returned (file.length-1)).toInt < 0 :=
        Int32.lt_iff_toInt_lt.mp (returned_negative (by omega) (by omega))
      have hstart : ((returned (file.length-1)).toInt+1).toNat=0 := by omega
      rw [hstart,if_neg hle]
      rfl

end FileName

section LineNumber

theorem lineDigits_eq (n v : Nat) :
    lineDigits n v=uintDigits (cstr "0123456789") 10 n v := by
  have hdigit : ∀ r < 10,48+UInt8.ofNat r=(cstr "0123456789").getD r 0 := by decide
  induction n generalizing v with
  | zero => rfl
  | succ n ih => rw [lineDigits,uintDigits,ih,hdigit _ (Nat.mod_lt v (by decide))]

/-- Read backwards, `line_str` has the colon and the numeral. -/
theorem lineStr_reverse {line : Int32} (h : 0 ≤ line) :
    (lineStr line).reverse=cstr ":"++Conversion.numeral 10 line.toInt.toNat := by
  have hglyph : ∀ r < 10,(cstr "0123456789").getD r 0=UInt8.ofNat r.digitChar.toNat := by decide
  rw [lineStr,List.reverse_append]
  congr 1
  by_cases h0 : line=0
  · rw [if_pos h0,h0]
    decide
  · have hle : 0 ≤ line.toInt := Int32.le_iff_toInt_le.mp h
    have hne : line.toInt≠0 := fun hzero => h0 (Int32.toInt_inj.mp hzero)
    have hlt := line.toInt_lt
    have hdigits : line.toInt.toNat < 10^15 := by omega
    rw [if_neg h0,lineDigits_eq]
    exact uintDigits_toDigits (by decide) hglyph 15 hdigits (by omega)

theorem numeral_length_le {v : Nat} (h : v < 10^10) : (Conversion.numeral 10 v).length ≤ 10 := by
  rw [Conversion.numeral,List.length_map]
  exact (Nat.length_toDigits_le_iff (by decide) (by decide)).mpr h

theorem zero_not_mem_numeral (v : Nat) : 0∉Conversion.numeral 10 v := by
  intro h
  obtain ⟨d,hd,hzero⟩ := List.mem_map.mp h
  have hdigit := Nat.isDigit_of_mem_toDigits (by decide) (by decide) hd
  simp only [Char.isDigit,Bool.and_eq_true,decide_eq_true_eq,UInt32.le_iff_toNat_le] at hdigit
  have hbyte := congrArg UInt8.toNat hzero
  rw [UInt8.toNat_ofNat'] at hbyte
  change d.toNat%2^8=0 at hbyte
  obtain ⟨hlow,hhigh⟩ := hdigit
  change 48 ≤ d.toNat at hlow
  change d.toNat ≤ 57 at hhigh
  omega

end LineNumber

section Front

variable {buffer t : List UInt8} {line : Int32}

theorem putLine_eq (h : buffer.length+t.length ≤ 511) : putLine buffer t=buffer++t := by
  induction t generalizing buffer with
  | nil => exact (List.append_nil buffer).symm
  | cons c t ih =>
    rw [List.length_cons] at h
    have hroom : buffer.length < 512-1 := by omega
    have hnext : (buffer++[c]).length+t.length ≤ 511 := by
      rw [List.length_append,List.length_singleton]
      omega
    rw [putLine,if_pos hroom,ih hnext,List.append_assoc,List.singleton_append]

theorem length_fileHeader (file : List UInt8) (line : Int32) :
    (fileHeader file line).length=
      (baseName file).length+(Conversion.numeral 10 line.toInt.toNat).length+4 := by
  have hopen : (cstr " [").length=2 := by decide
  have hcolon : (cstr ":").length=1 := by decide
  have hclose : (cstr "]").length=1 := by decide
  simp only [fileHeader,List.length_append,hopen,hcolon,hclose]
  omega

theorem lineNumeral_length (line : Int32) :
    (Conversion.numeral 10 line.toInt.toNat).length ≤ 10 := by
  have hlt := line.toInt_lt
  exact numeral_length_le (by omega)

/-- Behind the level the file name has its place if it is short enough. -/
theorem putFile_eq (file : FileName) (hline : 0 ≤ line) (hb : buffer.length=18) :
    putFile file.text line buffer=
      buffer++if Named file.text then fileHeader file.text line else [] := by
  have hfits := file.fits
  have hlen32 : file.text.length < 2^32 := by omega
  have hname := fileName_eq hlen32
  have hbase : (baseName file.text).length ≤ file.text.length := by
    rw [baseName,List.length_reverse,← file.text.length_reverse]
    exact (List.takeWhile_prefix _).length_le
  have hguard : (buffer.length+(fileName file.text).length+16)%2^32 < 512-1 ↔
      Named file.text := by
    rw [hname,hb,Named]
    split_ifs with hle <;> omega
  rw [putFile]
  by_cases hn : Named file.text
  · have hlen := lineNumeral_length line
    have hopen : (cstr " [").length=2 := by decide
    have hcolon : (cstr ":").length=1 := by decide
    have hbound := hn.2
    rw [if_pos (hguard.mpr hn),if_pos hn,hname,if_pos hn.1,lineStr_reverse hline,putLine_eq,
      fileHeader]
    · simp only [List.append_assoc]
    · simp only [List.length_append,hopen,hcolon]
      omega
  · rw [if_neg (fun hno => hn (hguard.mp hno)),if_neg hn,List.append_nil]

theorem putLevel_eq (level : LogLevel) :
    putLevel level (putTimestamp [])=timestamp++cstr " ["++level.string++cstr "]" := by
  cases level <;> decide

theorem length_level_le (level : LogLevel) :
    (timestamp++cstr " ["++level.string++cstr "]").length ≤ 18 := by
  cases level <;> decide

theorem length_file_le (level : LogLevel) (file : List UInt8) (line : Int32) :
    (if (level=.error ∨ level=.fatal) ∧ Named file then fileHeader file line
      else []).length ≤ 490 := by
  split_ifs with h
  · have hname := h.2.2
    have hlen := lineNumeral_length line
    rw [length_fileHeader]
    omega
  · exact Nat.zero_le _

/-- Every guard lets its piece of the header through. -/
theorem logFront_eq (level : LogLevel) (file : FileName) (hline : 0 ≤ line) :
    logFront level file.text line=logHeader level file.text line := by
  have hvalue : level.value≥LogLevel.error.value ↔ level=.error ∨ level=.fatal := by
    cases level <;> decide
  have hfront : (if level.value≥LogLevel.error.value then
      putFile file.text line (putLevel level (putTimestamp [])) else putLevel level (putTimestamp []))=
      timestamp++cstr " ["++level.string++cstr "]"++
        if (level=.error ∨ level=.fatal) ∧ Named file.text then fileHeader file.text line
        else [] := by
    rw [putLevel_eq]
    by_cases hl : level=.error ∨ level=.fatal
    · have h18 : (timestamp++cstr " ["++level.string++cstr "]").length=18 := by
        rcases hl with rfl | rfl <;> decide
      rw [if_pos (hvalue.mpr hl),putFile_eq file hline h18]
      simp only [hl,true_and]
    · rw [if_neg (fun h => hl (hvalue.mp h)),if_neg (fun h => hl h.1),List.append_nil]
  have hroom : (timestamp++cstr " ["++level.string++cstr "]"++
      if (level=.error ∨ level=.fatal) ∧ Named file.text then fileHeader file.text line
      else []).length < 512-3 := by
    have hlevel := length_level_le level
    have hfile := length_file_le level file.text line
    rw [List.length_append]
    omega
  rw [logFront,hfront,putSeparator,if_pos hroom]
  rfl

end Front

/-- A header that leaves room for a newline, and ends with a blank. -/
structure IsHeader (header : List UInt8) : Prop where
  clean : 0∉header
  last : header.getLast?=some 32
  length_le : header.length ≤ 510

theorem logHeader_isHeader (level : LogLevel) (file : FileName) (line : Int32) :
    IsHeader (logHeader level file.text line) := by
  have hend : cstr ": "=[58,32] := by decide
  constructor
  · have hlevel : 0∉timestamp++cstr " ["++level.string++cstr "]" := by cases level <;> decide
    have hbase : 0∉baseName file.text := fun h => file.clean (baseName_subset h)
    have hopen : 0∉cstr " [" := by decide
    have hcolon : 0∉cstr ":" := by decide
    have hclose : 0∉cstr "]" := by decide
    have hnumeral := zero_not_mem_numeral line.toInt.toNat
    have hfile : 0∉fileHeader file.text line := by
      simp only [fileHeader,List.mem_append,not_or]
      exact ⟨⟨⟨⟨hopen,hbase⟩,hcolon⟩,hnumeral⟩,hclose⟩
    rw [logHeader,List.mem_append,List.mem_append,not_or,not_or]
    refine ⟨⟨hlevel,?_⟩,by decide⟩
    split_ifs
    · exact hfile
    · exact List.not_mem_nil
  · rw [logHeader,hend,List.getLast?_append]
    rfl
  · have hlevel := length_level_le level
    have hfile := length_file_le level file.text line
    rw [logHeader,hend,List.length_append,List.length_append]
    change _+2 ≤ 510
    omega

theorem errorFront_eq (code : ErrorCode) : errorFront code=errorHeader code := by
  cases code <;> decide

theorem errorHeader_isHeader (code : ErrorCode) : IsHeader (errorHeader code) := by
  constructor <;> cases code <;> decide

end Cllm.Kernel
