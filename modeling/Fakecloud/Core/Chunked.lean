import Fakecloud.Core.Http

/-!
# The aws-chunked content encoding

A body in frames of its own: a line with the size of a chunk, its data and a line break, again
and again up to an empty chunk, which trailers follow.  The network cuts the bytes anywhere, and
the decoder goes on where it is.
-/

namespace Fakecloud.Core

open Text List

/-! ## The decoder -/

inductive ChunkState
  | header
  | data
  | afterData
  | trailer
  deriving DecidableEq

structure AwsChunkedDecoder where
  state : ChunkState := .header
  line : Bytes := []
  remaining : ℕ := 0
  done : Bool := false

def cr : UInt8 := 13

def lf : UInt8 := 10

def semicolon : UInt8 := 59

/-- The size on a line, before any extension. -/
def chunkSize (line : Bytes) : Option ℕ :=
  (fromUtf8 (line.takeWhile (· != semicolon))).bind fun hex => parseHex (2 ^ 64) (trim hex)

namespace AwsChunkedDecoder

/-- One round of an inner loop, outside the data. -/
def readByte (d : AwsChunkedDecoder) (b : UInt8) : Option AwsChunkedDecoder :=
  if d.state = .afterData then some (if b = lf then { d with state := .header } else d)
  else if b ≠ lf then some (if b = cr then d else { d with line := d.line ++ [b] })
  else if d.state = .header then
    (chunkSize d.line).map fun size =>
      if size = 0 then { d with line := [], state := .trailer }
      else { d with line := [], remaining := size, state := .data }
  else some { d with line := [], done := d.line.isEmpty }

def take (d : AwsChunkedDecoder) (n : ℕ) : AwsChunkedDecoder :=
  { d with remaining := d.remaining - n, state := if d.remaining - n = 0 then .afterData else .data }

/-- The bytes that a frame yields; none for a size that cannot be read. -/
def feed (d : AwsChunkedDecoder) (input : Bytes) : Option (Bytes × AwsChunkedDecoder) :=
  match input with
  | [] => some ([], d)
  | b :: rest =>
    if d.done then some ([], d)
    else if d.state = .data then
      let n := min d.remaining (rest.length + 1)
      (feed (d.take n) ((b :: rest).drop n)).map fun r => ((b :: rest).take n ++ r.1, r.2)
    else (d.readByte b).bind fun d => feed d rest
termination_by (input.length, if d.state = .data then 1 else 0)
decreasing_by
  · rcases Nat.eq_zero_or_pos d.remaining with h | h
    · simp_all [take, Prod.lex_def]
    · refine Prod.Lex.left _ _ ?_
      simp
      omega
  · exact Prod.Lex.left _ _ (by simp)

/-- The bytes of all frames. -/
def decode : AwsChunkedDecoder → List Bytes → Option Bytes
  | _, [] => some []
  | d, frame :: frames => (d.feed frame).bind fun r => (decode r.2 frames).map (r.1 ++ ·)

/-! ## Frames -/

theorem feed_data {d : AwsChunkedDecoder} {l : Bytes} (hd : ¬ d.done) (hs : d.state = .data) (hl : l ≠ []) :
    d.feed l = ((d.take (min d.remaining l.length)).feed (l.drop d.remaining)).map fun r =>
      (l.take d.remaining ++ r.1, r.2) := by
  obtain ⟨b, l, rfl⟩ := exists_cons_of_ne_nil hl
  rw [feed, if_neg hd, if_pos hs, length_cons]
  rcases le_total d.remaining (l.length + 1) with h | h
  · simp only [min_eq_left h]
  · simp only [min_eq_right h]
    rw [drop_of_length_le, drop_of_length_le, take_of_length_le, take_of_length_le] <;> simp [h]

theorem take_take (d : AwsChunkedDecoder) (m n : ℕ) : (d.take m).take n = d.take (m + n) := by
  simp [take, Nat.sub_sub]

theorem feed_append (d : AwsChunkedDecoder) (xs ys : Bytes) :
    d.feed (xs ++ ys) = (d.feed xs).bind fun r => (r.2.feed ys).map fun r' => (r.1 ++ r'.1, r'.2) := by
  rcases eq_or_ne ys [] with rfl | hy
  · cases h : d.feed xs <;> simp [feed, h]
  induction d, xs using feed.induct with
  | case1 d => simp [feed]
  | case2 d b rest hd => cases ys <;> simp [feed, hd]
  | case3 d b rest hd hs n ih =>
    have hne : b :: rest ≠ [] := cons_ne_nil b rest
    rw [feed_data hd hs (append_ne_nil_of_left_ne_nil hne ys), feed_data hd hs hne]
    rcases le_or_gt d.remaining (b :: rest).length with h | h
    · rw [min_eq_left (by rw [length_append]; omega), min_eq_left h, drop_append_of_le_length h,
        take_append_of_le_length h]
      rw [show n = d.remaining from min_eq_left h] at ih
      rw [ih]
      simp [Option.bind_map, Option.map_bind, Function.comp_def]
    · obtain ⟨m, hm⟩ := Nat.exists_eq_add_of_le h.le
      have hst : (d.take (b :: rest).length).state = .data := if_neg (by omega)
      have hr : (d.take (b :: rest).length).remaining = m := by simp [take, hm]
      rw [min_eq_right h.le, drop_of_length_le h.le, take_of_length_le h.le, feed, Option.map_some,
        Option.bind_some,
        feed_data (d := d.take (b :: rest).length) hd hst hy, hr, take_take, hm, length_append,
          Nat.add_min_add_left,
        drop_length_add_append, take_length_add_append]
      simp [Function.comp_def]
  | case4 d b rest hd hs ih =>
    rw [cons_append, feed, if_neg hd, if_neg hs, feed, if_neg hd, if_neg hs, Option.bind_assoc]
    exact Option.bind_congr fun d' _ => ih d'

theorem decode_eq (d : AwsChunkedDecoder) (frames : List Bytes) :
    d.decode frames = (d.feed frames.flatten).map Prod.fst := by
  induction frames generalizing d with
  | nil => simp [decode, feed]
  | cons frame frames ih =>
    rw [flatten_cons, feed_append, decode, Option.map_bind]
    refine Option.bind_congr fun r _ => ?_
    rw [ih, Option.map_map]
    simp [Function.comp_def]

/-! ## Encoded bodies -/

section

variable {c : Char} {s : Str} {b : UInt8} {n : ℕ} {d : AwsChunkedDecoder} {l : Bytes}

theorem isHexDigit_bounds (h : isHexDigit c) : 48 ≤ c.toNat ∧ c.toNat ≤ 102 ∧ c.toNat ≠ 59 := by
  simp only [isHexDigit, Char.isDigit, Bool.or_eq_true, Bool.and_eq_true, decide_eq_true_eq, Char.le_def,
    UInt32.le_iff_toNat_le] at h
  change (48 ≤ c.toNat ∧ c.toNat ≤ 57 ∨ 97 ≤ c.toNat ∧ c.toNat ≤ 102) ∨ 65 ≤ c.toNat ∧ c.toNat ≤ 70 at h
  omega

theorem utf8_ascii (h : ∀ c ∈ s, c.toNat < 128) : utf8 s = s.map fun c => UInt8.ofNat c.toNat := by
  rw [utf8, map_eq_flatMap]
  exact flatMap_congr fun c hc => if_pos (h c hc)

theorem utf8Lossy_utf8_ascii (h : ∀ c ∈ s, c.toNat < 128) : utf8Lossy (utf8 s) = s := by
  rw [utf8_ascii h]
  induction s with
  | nil => rfl
  | cons c s ih =>
    obtain ⟨hc, hs⟩ := forall_mem_cons.mp h
    have hb : (UInt8.ofNat c.toNat).toNat = c.toNat := by simp; omega
    rw [map_cons, utf8Lossy, lossyFrom, hb, utf8Step, if_pos hc, Char.ofNat_toNat]
    exact congrArg _ (ih hs)

theorem trim_hex (h : ∀ c ∈ s, isHexDigit c) : trim s = s := by
  have hw : ∀ c ∈ s, isWhitespace c = false := fun c hc => by
    have := isHexDigit_bounds (h c hc)
    simp [isWhitespace]
    omega
  exact trim_eq_self hw

/-- The size of a chunk in hexadecimal digits, with an extension. -/
structure SizeLine (n : ℕ) where
  size : Str
  hex : ∀ c ∈ size, isHexDigit c
  denotes : parseHex (2 ^ 64) size = some n
  extension : Option Bytes
  oneLine : ∀ e ∈ extension, lf ∉ e

def SizeLine.text (h : SizeLine n) : Bytes := utf8 h.size ++ h.extension.elim [] (semicolon :: ·)

structure Chunk where
  data : Bytes
  nonempty : data ≠ []
  header : SizeLine data.length

structure Encoded where
  chunks : List Chunk
  last : SizeLine 0
  trailers : List Bytes

def crlf : Bytes := [cr, lf]

def Encoded.bytes (body : Encoded) : Bytes :=
  body.chunks.flatMap (fun c => c.header.text ++ crlf ++ c.data ++ crlf) ++ body.last.text ++ crlf ++
    body.trailers.flatMap (· ++ crlf) ++ crlf

def Encoded.payload (body : Encoded) : Bytes := body.chunks.flatMap Chunk.data

theorem SizeLine.mem_size (h : SizeLine n) (hb : b ∈ utf8 h.size) : b ≠ cr ∧ b ≠ lf ∧ b ≠ semicolon := by
  rw [utf8_ascii fun c hc => by have := isHexDigit_bounds (h.hex c hc); omega] at hb
  obtain ⟨c, hc, rfl⟩ := mem_map.mp hb
  have := isHexDigit_bounds (h.hex c hc)
  refine ⟨fun he => ?_, fun he => ?_, fun he => ?_⟩ <;>
  · have := congrArg UInt8.toNat he
    simp [cr, lf, semicolon] at this
    omega

theorem SizeLine.chunkSize_text (h : SizeLine n) : chunkSize (h.text.filter (· ≠ cr)) = some n := by
  have hf : (utf8 h.size).filter (· ≠ cr) = utf8 h.size := filter_eq_self.mpr fun b hb =>
    by simp [(h.mem_size hb).1]
  have ht : (h.text.filter (· ≠ cr)).takeWhile (· != semicolon) = utf8 h.size := by
    rw [SizeLine.text, filter_append, hf, takeWhile_append_of_pos fun b hb => by simp [(h.mem_size hb).2.2]]
    cases h.extension <;> simp [semicolon, cr]
  have hu : utf8Lossy (utf8 h.size) = h.size := utf8Lossy_utf8_ascii fun c hc => by
    have := isHexDigit_bounds (h.hex c hc)
    omega
  rw [chunkSize, ht, fromUtf8, hu, if_pos rfl, Option.bind_some, trim_hex h.hex, h.denotes]

theorem feed_line (line : Bytes) (hl : lf ∉ l) :
    feed { line := line } l = some ([], { line := line ++ l.filter (· ≠ cr) }) := by
  induction l generalizing line with
  | nil => simp [feed]
  | cons b l ih =>
    obtain ⟨hb, hl⟩ := not_or.mp (mt mem_cons.mpr hl)
    by_cases hc : b = cr
    · simp [hc, feed, readByte, show cr ≠ lf by decide, ih _ hl]
    · simp [hc, feed, readByte, Ne.symm hb, ih _ hl]

theorem feed_sizeLine (h : SizeLine n) : feed {} (h.text ++ crlf) =
    some ([], if n = 0 then { state := .trailer } else { state := .data, remaining := n }) := by
  have hl : lf ∉ h.text := fun hm => by
    rcases mem_append.mp hm with hm | hm
    · exact (h.mem_size hm).2.1 rfl
    · have := h.oneLine
      cases he : h.extension <;> simp_all [lf, semicolon]
  have hc := h.chunkSize_text
  rw [feed_append, feed_line [] hl, nil_append]
  generalize h.text.filter (· ≠ cr) = line at hc
  by_cases hn : n = 0 <;> simp [crlf, feed, readByte, hc, hn, show cr ≠ lf by decide]

theorem feed_trailer (hs : d.state = .trailer) (l : Bytes) :
    ∃ d', d.feed l = some ([], d') ∧ d'.state = .trailer := by
  induction l generalizing d with
  | nil => exact ⟨d, by rw [feed], hs⟩
  | cons b l ih =>
    by_cases hd : d.done
    · exact ⟨d, by rw [feed, if_pos hd], hs⟩
    · rw [feed, if_neg hd, if_neg (by simp [hs]), readByte, if_neg (by simp [hs])]
      split
      · split
        · exact ih hs
        · exact ih hs
      · rw [if_neg (by simp [hs])]
        exact ih hs

theorem feed_chunk (c : Chunk) : feed {} (c.header.text ++ crlf ++ c.data ++ crlf) = some (c.data, {}) := by
  have hn : c.data.length ≠ 0 := by simp [c.nonempty]
  rw [feed_append, feed_append, feed_sizeLine, if_neg hn, Option.bind_some,
    feed_data (by simp) rfl c.nonempty]
  simp [take, feed, crlf, readByte, cr, lf]

open Encoded

theorem feed_bytes (body : Encoded) : ∃ d, feed {} body.bytes = some (body.payload, d) := by
  obtain ⟨chunks, last, trailers⟩ := body
  induction chunks with
  | nil =>
    obtain ⟨d, hd, -⟩ := feed_trailer (d := { state := .trailer }) rfl (trailers.flatMap (· ++ crlf) ++ crlf)
    refine ⟨d, ?_⟩
    rw [bytes, flatMap_nil, nil_append, append_assoc, feed_append, feed_sizeLine]
    simp [hd, payload]
  | cons c chunks ih =>
    obtain ⟨d, hd⟩ := ih
    refine ⟨d, ?_⟩
    have hb : bytes ⟨c :: chunks, last, trailers⟩ =
        c.header.text ++ crlf ++ c.data ++ crlf ++ bytes ⟨chunks, last, trailers⟩ := by simp [bytes]
    rw [hb, feed_append, feed_chunk, Option.bind_some, hd]
    simp [payload]

end

/-- **Decoding is exact and does not depend on the frames.** -/
theorem aws_chunked_exact (frames : List Bytes) : decode {} frames = decode {} [frames.flatten] ∧
    ∀ body : Encoded, frames.flatten = body.bytes → decode {} frames = some body.payload := by
  refine ⟨by rw [decode_eq, decode_eq, flatten_singleton], fun body h => ?_⟩
  obtain ⟨d, hd⟩ := feed_bytes body
  rw [decode_eq, h, hd, Option.map_some]

namespace Example

def two : SizeLine 2 := ⟨['2'], fun _ h => mem_singleton.mp h ▸ rfl, by decide +kernel, some [cr], by decide⟩

def body : Encoded :=
  ⟨[⟨[1, 10], by simp, two⟩],
    ⟨['0'], fun _ h => mem_singleton.mp h ▸ rfl, by decide +kernel, none, nofun⟩, [[2]]⟩

end Example

theorem aws_chunked_exact_bytewise : decode {} (Example.body.bytes.map fun b => [b]) = some [1, 10] :=
  (aws_chunked_exact _).2 Example.body (by decide +kernel)

/-! ## Complete bodies -/

/-- Every byte that a size announces is there, and an empty chunk. -/
inductive Complete : Bytes → Prop
  | last {line rest : Bytes} (hl : lf ∉ line) (hs : chunkSize (line.filter (· ≠ cr)) = some 0) :
      Complete (line ++ lf :: rest)
  | chunk {line data gap rest : Bytes} (hl : lf ∉ line)
      (hs : chunkSize (line.filter (· ≠ cr)) = some data.length)
      (hd : data ≠ []) (hg : lf ∉ gap) (h : Complete rest) : Complete
        (line ++ lf :: (data ++ (gap ++ lf :: rest)))

/-- The body ends on a size line, in the data or before the line break behind them. -/
inductive Truncated : Bytes → Prop
  | header {line : Bytes} (hl : lf ∉ line) : Truncated line
  | data {line data : Bytes} {n : ℕ} (hl : lf ∉ line) (hs : chunkSize (line.filter (· ≠ cr)) = some n)
      (hd : data.length < n) : Truncated (line ++ lf :: data)
  | gap {line data gap : Bytes} (hl : lf ∉ line) (hs : chunkSize (line.filter (· ≠ cr)) = some data.length)
      (hd : data ≠ []) (hg : lf ∉ gap) : Truncated (line ++ lf :: (data ++ gap))
  | chunk {line data gap rest : Bytes} (hl : lf ∉ line)
      (hs : chunkSize (line.filter (· ≠ cr)) = some data.length)
      (hd : data ≠ []) (hg : lf ∉ gap) (h : Truncated rest) : Truncated
        (line ++ lf :: (data ++ (gap ++ lf :: rest)))

section

variable {l out : Bytes} {d : AwsChunkedDecoder}

theorem feed_header {line : Bytes} (hl : lf ∉ line) (rest : Bytes) : feed {} (line ++ lf :: rest) =
    (chunkSize (line.filter (· ≠ cr))).bind fun n =>
      feed (if n = 0 then { state := .trailer } else { state := .data, remaining := n }) rest := by
  rw [feed_append, feed_line [] hl, nil_append]
  cases hn : chunkSize (line.filter (· ≠ cr)) <;> simp_all [feed, readByte]

theorem feed_body {n : ℕ} (hn : n ≠ 0) (l : Bytes) : feed { state := .data, remaining := n } l =
    if l.length < n then some (l, { state := .data, remaining := n - l.length })
    else (feed { state := .afterData } (l.drop n)).map fun r => (l.take n ++ r.1, r.2) := by
  rcases eq_or_ne l [] with rfl | hl
  · simp [feed, Nat.pos_of_ne_zero hn]
  rw [feed_data (by simp) rfl hl]
  split
  · next h =>
    simp [take, min_eq_right h.le, drop_of_length_le h.le, take_of_length_le h.le, feed,
      Nat.sub_ne_zero_of_lt h]
  · next h => simp [take, min_eq_left (not_lt.mp h)]

theorem feed_gap {gap : Bytes} (hg : lf ∉ gap) :
    feed { state := .afterData } gap = some ([], { state := .afterData }) := by
  induction gap with
  | nil => rw [feed]
  | cons b gap ih =>
    obtain ⟨hb, hg⟩ := not_or.mp (mt mem_cons.mpr hg)
    simp [feed, readByte, Ne.symm hb, ih hg]

theorem feed_afterData {gap : Bytes} (hg : lf ∉ gap) (rest : Bytes) :
    feed { state := .afterData } (gap ++ lf :: rest) = feed {} rest := by
  rw [feed_append, feed_gap hg]
  simp [feed, readByte]

/-- A whole chunk in front. -/
theorem feed_wholeChunk {line data gap : Bytes} (hl : lf ∉ line)
    (hs : chunkSize (line.filter (· ≠ cr)) = some data.length) (hd : data ≠ []) (hg : lf ∉ gap)
    (rest : Bytes) :
    feed {} (line ++ lf :: (data ++ (gap ++ lf :: rest))) = (feed {} rest).map fun r =>
      (data ++ r.1, r.2) := by
  have hn : data.length ≠ 0 := by simpa using hd
  rw [feed_header hl, hs, Option.bind_some, if_neg hn, feed_body hn, if_neg (by simp), drop_left,
    feed_afterData hg, take_left]

theorem Complete.state_eq (h : Complete l) (hf : feed {} l = some (out, d)) : d.state = .trailer := by
  induction h generalizing out with
  | @last line rest hl hs =>
    obtain ⟨d', hd, ht⟩ := feed_trailer (d := { state := .trailer }) rfl rest
    rw [feed_header hl, hs, Option.bind_some, if_pos rfl, hd] at hf
    cases hf
    exact ht
  | chunk hl hs hd hg _ ih =>
    rw [feed_wholeChunk hl hs hd hg] at hf
    obtain ⟨r, hr, he⟩ := Option.map_eq_some_iff.mp hf
    cases he
    exact ih hr

/-- The decoder takes a truncated body and waits for the rest. -/
theorem Truncated.feed_eq (h : Truncated l) : ∃ out d, feed {} l = some (out, d) ∧ d.state ≠ .trailer := by
  induction h with
  | header hl => exact ⟨_, _, feed_line [] hl, by simp⟩
  | data hl hs hd =>
    have hn := Nat.ne_zero_of_lt hd
    rw [feed_header hl, hs, Option.bind_some, if_neg hn, feed_body hn, if_pos hd]
    exact ⟨_, _, rfl, by simp⟩
  | @gap line data gap hl hs hd hg =>
    have hn : data.length ≠ 0 := by simpa using hd
    rw [feed_header hl, hs, Option.bind_some, if_neg hn, feed_body hn, if_neg (by simp),
      drop_left, feed_gap hg]
    exact ⟨_, _, rfl, by simp⟩
  | chunk hl hs hd hg _ ih =>
    obtain ⟨out, d, hf, hst⟩ := ih
    rw [feed_wholeChunk hl hs hd hg, hf]
    exact ⟨_, d, rfl, hst⟩

/-- A body without an unreadable size is complete or truncated. -/
theorem complete_or_truncated (hf : feed {} l = some (out, d)) : Complete l ∨ Truncated l := by
  induction hk : l.length using Nat.strong_induction_on generalizing l out with
  | _ k ih =>
    by_cases hm : lf ∈ l
    · obtain ⟨line, rest, rfl, hl⟩ := eq_append_cons_of_mem hm
      rw [feed_header hl] at hf
      obtain ⟨n, hs, hf⟩ := Option.bind_eq_some_iff.mp hf
      rcases eq_or_ne n 0 with rfl | hn
      · exact .inl (.last hl hs)
      rcases lt_or_ge rest.length n with hlen | hlen
      · exact .inr (.data hl hs hlen)
      rw [if_neg hn, feed_body hn, if_neg (not_lt.mpr hlen)] at hf
      obtain ⟨⟨out', d'⟩, hr, he⟩ := Option.map_eq_some_iff.mp hf
      cases he
      have htk : (rest.take n).length = n := length_take_of_le hlen
      have hne : rest.take n ≠ [] := fun h => hn (by rw [← htk, h, length_nil])
      rw [← htk] at hs
      rw [← take_append_drop n rest] at hk ⊢
      by_cases hm : lf ∈ rest.drop n
      · obtain ⟨gap, rest', hd, hg⟩ := eq_append_cons_of_mem hm
        rw [hd, feed_afterData hg] at hr
        rw [hd] at hk ⊢
        refine (ih rest'.length ?_ hr rfl).imp (.chunk hl hs hne hg) (.chunk hl hs hne hg)
        simp at hk
        omega
      · exact .inr (.gap hl hs hne hm)
    · exact .inr (.header hm)

end

/-! ## Spooling -/

structure SpoolError where
  status : ℕ
  code : Str
  message : Str

def internalError (doing : String) (cause : Str) : SpoolError :=
  ⟨500, "InternalError", "failed to ".toList ++ doing.toList ++ ": ".toList ++ cause⟩

def streamErrorToAws (message : Str) : SpoolError :=
  if containsStr (lower message) "limit" then
    ⟨413, "RequestEntityTooLarge", "Streaming request body exceeded the configured limit"⟩
  else ⟨400, "MalformedRequestBody", "Failed to read streaming request body"⟩

inductive Frame
  | data (raw : Bytes)
  | trailers
  | error (message : Str)

def Frame.bytes : Frame → Bytes
  | data raw => raw
  | _ => []

/-- The disk, which fails with a message, and the digests. -/
structure Spool where
  create : Option Str
  persist : Option Str
  write : Bytes → Option Str
  flush : Option Str
  md5Hex : Bytes → Str
  sha256Hex : Bytes → Str

structure SpooledBody where
  file : Bytes
  size : ℕ
  md5Hex : Str
  sha256Hex : Str

namespace Spool

def failed (doing : String) (cause : Option Str) : Except SpoolError Unit :=
  cause.elim (.ok ()) fun cause => .error (internalError doing cause)

/-- What the frames write to the file; without a decoder, the frames themselves. -/
def frames (S : Spool) : Option AwsChunkedDecoder → List Frame → Except SpoolError Bytes
  | _, [] => .ok []
  | _, .error message :: _ => .error (streamErrorToAws message)
  | d, .trailers :: rest => S.frames d rest
  | d, .data raw :: rest =>
    match d.elim (some (raw, none)) fun d => (d.feed raw).map fun r => (r.1, some r.2) with
    | none => .error ⟨400, "InvalidChunkSizeError", "Malformed aws-chunked request body"⟩
    | some (payload, d) => do
      failed "spool request body" (if payload = [] then none else S.write payload)
      return payload ++ (← S.frames d rest)

def spoolRequestStream (S : Spool) (stream : List Frame) (awsChunked : Bool) :
    Except SpoolError SpooledBody := do
  failed "create spool tempfile" S.create
  failed "persist spool tempfile" S.persist
  let file ← S.frames (if awsChunked then some {} else none) stream
  failed "flush spool tempfile" S.flush
  return ⟨file, file.length, S.md5Hex file, S.sha256Hex file⟩

theorem feed_of_frames {S : Spool} {d : AwsChunkedDecoder} {stream : List Frame} {file : Bytes}
    (h : S.frames (some d) stream = .ok file) :
    ∃ d', d.feed (stream.flatMap Frame.bytes) = some (file, d') := by
  induction stream generalizing d file with
  | nil =>
    cases h
    exact ⟨d, by rw [flatMap_nil, feed]⟩
  | cons frame stream ih =>
    cases frame with
    | error message => cases h
    | trailers => exact ih h
    | data raw =>
      rw [flatMap_cons, feed_append]
      simp only [frames, Option.elim_some] at h
      rcases hf : d.feed raw with _ | ⟨payload, d'⟩
      · simp [hf] at h
      · simp only [hf, Option.map_some] at h
        obtain ⟨_, -, h⟩ := bind_eq_ok.mp h
        obtain ⟨rest, hr, h⟩ := bind_eq_ok.mp h
        cases h
        obtain ⟨d'', hd⟩ := ih hr
        exact ⟨d'', by simp [Frame.bytes, hf, hd]⟩

end Spool

/-- A disk that never fails. -/
def Spool.sound : Spool := ⟨none, none, fun _ => none, none, fun _ => [], fun _ => []⟩

theorem Spool.sound_spools {l out : Bytes} {d : AwsChunkedDecoder} (h : feed {} l = some (out, d)) :
    Spool.sound.spoolRequestStream [.data l] true = .ok ⟨out, out.length, [], []⟩ := by
  have hw : (if out = [] then none else Spool.sound.write out) = none := ite_self none
  have hf : Spool.sound.frames (some {}) [.data l] = .ok out := by
    simp only [Spool.frames, Option.elim_some, h, Option.map_some, hw]
    exact congrArg Except.ok (append_nil out)
  rw [Spool.spoolRequestStream, if_pos rfl, hf]
  rfl

/-- **Truncated bodies are spooled.**  Whatever is spooled of a byte string, in whatever frames, is complete
exactly when the byte string does not end before its empty chunk. -/
theorem spooled_complete_iff (l : Bytes) :
    (∀ (S : Spool) (stream : List Frame) (r : SpooledBody), stream.flatMap Frame.bytes = l →
      S.spoolRequestStream stream true = .ok r → Complete l) ↔ ¬ Truncated l := by
  constructor
  · intro h ht
    obtain ⟨out, d, hf, hst⟩ := ht.feed_eq
    have hc := h Spool.sound [.data l] _ (by simp [Frame.bytes]) (Spool.sound_spools hf)
    exact hst (hc.state_eq hf)
  · rintro hn S stream r rfl h
    simp only [Spool.spoolRequestStream, bind_eq_ok] at h
    obtain ⟨_, -, _, -, file, hf, _, -, -⟩ := h
    obtain ⟨d, hd⟩ := Spool.feed_of_frames hf
    exact (complete_or_truncated hd).resolve_right hn

/-- One of two bytes that the size announces. -/
theorem spooled_truncated :
    Spool.sound.spoolRequestStream [.data [50, cr, lf, 1]] true = .ok ⟨[1], 1, [], []⟩ ∧
      ¬ Complete [50, cr, lf, 1] := by
  have hs : chunkSize [50] = some 2 := by decide +kernel
  have hf : feed {} [50, cr, lf, 1] = some ([1], { state := .data, remaining := 1 }) := by
    simp [feed, readByte, take, cr, lf, hs]
  exact ⟨Spool.sound_spools hf, fun h => by cases h.state_eq hf⟩

end AwsChunkedDecoder

end Fakecloud.Core
