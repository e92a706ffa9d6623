import Miez.NetworkServer.Frames
import Miez.Proofs.NetworkServer.Content

/-!
# `Miez.Proofs.NetworkServer.Frames`: the frames of a stream are decodable

A header fits into the block of a receiver when the channel has at most 255 bytes, so
`_subscriber_receiver_thread` builds exactly the frame of the message. The line of a frame has four
fields, none of which can hold a blank or a newline, and the content is taken by its length, so it
may look like anything. By induction over the messages a client gets back what was written.
-/

set_option autoImplicit false

namespace Miez.Proofs.NetworkServer

open Miez.NetworkServer
open Miez.Stdio (ascii decimal isDigit isSpace digitsValue)
open Miez.MessageBroker (Message)

/-! ### Decimal numbers -/

/-- The bytes of a decimal number are digits. -/
theorem isDigit_of_mem_decimal {m : Nat} {b : UInt8} (h : b ∈ decimal m) : isDigit b = true := by
  obtain ⟨c, hc, rfl⟩ := List.mem_map.mp h
  have hdigit : c.isDigit = true := Nat.isDigit_of_mem_toDigits (by omega) (by omega) hc
  obtain ⟨hlow, hhigh⟩ : 48 ≤ c.toNat ∧ c.toNat ≤ 57 := Char.isDigit_iff_toNat.mp hdigit
  rw [isDigit, Bool.and_eq_true, decide_eq_true_iff, decide_eq_true_iff]
  rw [UInt8.le_iff_toNat_le, UInt8.le_iff_toNat_le, UInt8.toNat_ofNat']
  have hmod : c.toNat % 2 ^ 8 = c.toNat := Nat.mod_eq_of_lt (by omega)
  rw [hmod]
  exact ⟨hlow, hhigh⟩

/-- Printing a number and reading it gives the number. -/
theorem digitsValue_decimal (m : Nat) : digitsValue (decimal m) = m := by
  have hfold : ∀ (cs : List Char) (acc : Nat), (∀ c ∈ cs, c.isDigit = true) →
      (cs.map fun c => UInt8.ofNat c.toNat).foldl (fun n d => 10 * n + (d.toNat - 48)) acc =
        Nat.ofDigitChars 10 cs acc := by
    intro cs
    induction cs with
    | nil => intro acc _; rfl
    | cons c cs ih =>
        intro acc hcs
        have hdigit := hcs c (List.mem_cons_self ..)
        obtain ⟨hlow, hhigh⟩ : 48 ≤ c.toNat ∧ c.toNat ≤ 57 := Char.isDigit_iff_toNat.mp hdigit
        rw [List.map_cons, List.foldl_cons, ih _ fun c' hc' => hcs c' (List.mem_cons_of_mem _ hc')]
        rw [Nat.ofDigitChars_cons, UInt8.toNat_ofNat', Nat.mod_eq_of_lt (by omega)]
        rfl
  rw [digitsValue, decimal, hfold _ _ fun c hc => Nat.isDigit_of_mem_toDigits (by omega) (by omega) hc]
  exact Nat.ofDigitChars_ten_toDigits

/-- A decimal number is a number field. -/
theorem numberField_decimal (m : Nat) : numberField (decimal m) = some m := by
  have hne : decimal m ≠ [] := by
    intro hnil
    exact Nat.toDigits_ne_nil (List.map_eq_nil_iff.mp hnil)
  have hall : (decimal m).all isDigit = true :=
    List.all_eq_true.mpr fun b hb => isDigit_of_mem_decimal hb
  rw [numberField, if_pos ⟨hne, hall⟩, digitsValue_decimal]

/-- A 64-bit number has at most 20 digits. -/
theorem length_decimal_le (id : UInt64) : (decimal id.toNat).length ≤ 20 := by
  rw [decimal, List.length_map, Nat.length_toDigits_le_iff (by omega) (by omega)]
  have hlt := id.toNat_lt
  omega

/-- A number has no more digits than its value, except for 0. -/
theorem length_decimal_le_succ (m : Nat) : (decimal m).length ≤ m + 1 := by
  rw [decimal, List.length_map, Nat.length_toDigits_le_iff (by omega) (by omega)]
  exact (Nat.lt_succ_self m).trans (Nat.lt_pow_self (by omega))

/-! ### The frame in the block of a receiver -/

/-- A write inside a block, right behind a start `as` of it: the block then starts with `as` and
what was written. -/
theorem overwrite_of_start {block as bs : List UInt8} (has : as <+: block)
    (h : as.length + bs.length ≤ block.length) :
    ∃ block', overwrite block as.length bs = some block' ∧ block'.length = block.length ∧
      as ++ bs <+: block' := by
  have htake : block.take as.length = as := (List.prefix_iff_eq_take.mp has).symm
  refine ⟨_, if_pos h, ?_, ?_⟩
  · rw [htake, List.length_append, List.length_append, List.length_drop]
    omega
  · rw [htake]
    exact List.prefix_append ..

/-- The messages of a stream: a channel is one word of at most 255 bytes, and the block of the frame
fits into the address space. -/
structure Sendable (msg : Message) : Prop where
  channel_length : msg.channelName.strlen ≤ 255
  channel_word : ∀ b ∈ msg.channelName.bytes, isSpace b = false
  block_size : totalLen msg.content.strlen < 2 ^ 64

/-- The header fits into the block, with room for the content and the newline behind it. -/
theorem Sendable.length_headerText {msg : Message} (h : Sendable msg) :
    (headerText msg.id msg.channelName msg.content.strlen).length ≤ 302 := by
  have hid := length_decimal_le msg.id
  have hchannel : msg.channelName.bytes.length ≤ 255 := h.channel_length
  have hlen : (decimal msg.content.strlen).length ≤ 20 := by
    have hblock := h.block_size
    rw [totalLen] at hblock
    rw [decimal, List.length_map, Nat.length_toDigits_le_iff (by omega) (by omega)]
    omega
  simp only [headerText, List.length_append]
  show 4 + _ + 1 + _ + 1 + _ + 1 ≤ 302
  omega

/-- A frame is its header, the content and a newline. -/
theorem frameBytes_eq (msg : Message) :
    frameBytes msg = headerText msg.id msg.channelName msg.content.strlen ++ msg.content.bytes ++
      ascii "\n" := rfl

/-- The receiver builds the frame of the message, whatever was in the memory. -/
theorem Sendable.buildFrame_eq {msg : Message} (h : Sendable msg) (memory : Nat → UInt8) :
    buildFrame memory msg = some (frameBytes msg) := by
  have hheader := h.length_headerText
  have hcontent : msg.content.bytes.length = msg.content.strlen := rfl
  rw [buildFrame]
  generalize hlen : msg.content.strlen = contentLen at *
  generalize htext : headerText msg.id msg.channelName contentLen = text at *
  generalize hblock : (List.range (totalLen contentLen)).map memory = block
  have hsize : block.length = 512 + contentLen + 1 := by
    rw [← hblock, List.length_map, List.length_range]
    rfl
  -- `snprintf` does not cut the header off
  have hfull : text.take (totalLen contentLen - 1) = text := by
    refine List.take_of_length_le ?_
    rw [totalLen]
    omega
  have hfit₁ : ([] : List UInt8).length + (text ++ [0]).length ≤ block.length := by
    rw [List.length_nil, List.length_append, List.length_singleton]
    omega
  obtain ⟨block₁, hwrite₁, hsize₁, hstart₁⟩ := overwrite_of_start List.nil_prefix hfit₁
  have htext₁ : text <+: block₁ := (List.prefix_append text [0]).trans hstart₁
  obtain ⟨block₂, hwrite₂, hsize₂, hstart₂⟩ : ∃ block₂,
      overwrite block₁ text.length msg.content.bytes = some block₂ ∧ block₂.length = block₁.length ∧
        text ++ msg.content.bytes <+: block₂ := overwrite_of_start htext₁ (by omega)
  have hlength : (text ++ msg.content.bytes).length = text.length + contentLen := by
    rw [List.length_append, hcontent]
  have hfit₃ : (text ++ msg.content.bytes).length + (ascii "\n").length ≤ block₂.length := by
    show _ + 1 ≤ _
    omega
  obtain ⟨block₃, hwrite₃, -, hstart₃⟩ := overwrite_of_start hstart₂ hfit₃
  rw [hlength] at hwrite₃
  rw [List.length_nil] at hwrite₁
  rw [snprintf, hfull, hwrite₁]
  show ((overwrite block₁ text.length msg.content.bytes).bind fun block =>
    (overwrite block (text.length + contentLen) (ascii "\n")).bind fun block =>
      some (block.take (text.length + contentLen + 1))) = _
  rw [hwrite₂, Option.bind_some, hwrite₃, Option.bind_some, Option.some_inj]
  have hframe : text ++ msg.content.bytes ++ ascii "\n" =
      block₃.take (text ++ msg.content.bytes ++ ascii "\n").length :=
    List.prefix_iff_eq_take.mp hstart₃
  rw [List.length_append, hlength] at hframe
  show block₃.take (text.length + contentLen + (ascii "\n").length) = frameBytes msg
  rw [← hframe, ← htext, frameBytes_eq, hlen]

/-! ### The stream -/

/-- The line of a frame has four fields. -/
theorem headerText_eq (id : UInt64) (channel : CString) (contentLen : Nat) :
    headerText id channel contentLen =
      (ascii "MSG" ++ 32 :: (decimal id.toNat ++ 32 :: (channel.bytes ++
        32 :: decimal contentLen))) ++ [10] := by
  simp only [headerText, List.append_assoc, List.cons_append]
  rfl

/-- A byte of a word or of a number is not one of the two separators. -/
theorem ne_separator {b : UInt8} (h : isSpace b = false) : (b == 32) = false ∧ b ≠ 10 := by
  constructor
  · rw [beq_eq_false_iff_ne]
    rintro rfl
    exact absurd h (by decide)
  · rintro rfl
    exact absurd h (by decide)

/-- A field in front of a blank is split off. -/
theorem splitOn_field {field : List UInt8} (hfield : ∀ b ∈ field, isSpace b = false)
    (rest : List UInt8) : (field ++ 32 :: rest).splitOn 32 = field :: rest.splitOn 32 := by
  rw [List.splitOn_eq_splitOnP, List.splitOn_eq_splitOnP]
  exact List.splitOnP_append_cons_of_forall_mem
    (fun b hb => (ne_separator (hfield b hb)).1) 32 (beq_self_eq_true _) rest

/-- The bytes of a decimal number are no white space. -/
theorem isSpace_of_mem_decimal {m : Nat} {b : UInt8} (h : b ∈ decimal m) : isSpace b = false :=
  isSpace_of_isDigit (isDigit_of_mem_decimal h)

/-- A client takes the first frame from a stream. -/
theorem Sendable.decodeFrame_append {msg : Message} (h : Sendable msg) (rest : List UInt8) :
    decodeFrame (frameBytes msg ++ rest) =
      some ((msg.id.toNat, msg.channelName.bytes, msg.content.bytes), rest) := by
  have hmsg : ∀ b ∈ ascii "MSG", isSpace b = false := by decide +kernel
  have hid : ∀ b ∈ decimal msg.id.toNat, isSpace b = false := fun b hb => isSpace_of_mem_decimal hb
  have hlen : ∀ b ∈ decimal msg.content.strlen, isSpace b = false :=
    fun b hb => isSpace_of_mem_decimal hb
  generalize hline : ascii "MSG" ++ 32 :: (decimal msg.id.toNat ++ 32 :: (msg.channelName.bytes ++
    32 :: decimal msg.content.strlen)) = line
  have hnewline : ∀ b ∈ line, decide (b ≠ 10) = true := by
    intro b hb
    rw [decide_eq_true_iff]
    rw [← hline] at hb
    simp only [List.mem_append, List.mem_cons] at hb
    rcases hb with hb | rfl | hb | rfl | hb | rfl | hb
    · exact (ne_separator (hmsg b hb)).2
    · decide
    · exact (ne_separator (hid b hb)).2
    · decide
    · exact (ne_separator (h.channel_word b hb)).2
    · decide
    · exact (ne_separator (hlen b hb)).2
  have hstream : frameBytes msg ++ rest = line ++ 10 :: (msg.content.bytes ++ 10 :: rest) := by
    rw [frameBytes_eq, headerText_eq, hline]
    simp only [List.append_assoc]
    rfl
  have hfields : line.splitOn 32 = [ascii "MSG", decimal msg.id.toNat, msg.channelName.bytes,
      decimal msg.content.strlen] := by
    rw [← hline, splitOn_field hmsg, splitOn_field hid, splitOn_field h.channel_word]
    rw [List.splitOn_eq_splitOnP, List.splitOnP_eq_singleton]
    exact fun b hb => (ne_separator (hlen b hb)).1
  rw [decodeFrame, hstream, List.dropWhile_append_of_pos hnewline,
    List.takeWhile_append_of_pos hnewline, List.dropWhile_cons_of_neg (by decide),
    List.takeWhile_cons_of_neg (by decide), List.append_nil]
  simp only [hfields, numberField_decimal]
  have hlength : msg.content.bytes.length = msg.content.strlen := rfl
  have henough : ¬ (msg.content.bytes ++ 10 :: rest).length < msg.content.strlen + 1 := by
    rw [List.length_append, List.length_cons, hlength]
    omega
  have hdrop : (msg.content.bytes ++ 10 :: rest).drop (msg.content.strlen + 1) = rest := by
    rw [← hlength, ← List.drop_drop, List.drop_left]
    rfl
  rw [if_pos trivial]
  show (if (msg.content.bytes ++ 10 :: rest).length < msg.content.strlen + 1 then _ else _) = _
  rw [if_neg henough, hdrop, ← hlength, List.take_left]

/-- A client decodes the frames of a stream. -/
theorem decode_frames (msgs : List Message) (h : ∀ msg ∈ msgs, Sendable msg) :
    decode (msgs.flatMap frameBytes) =
      (msgs.map fun msg => (msg.id.toNat, msg.channelName.bytes, msg.content.bytes), []) := by
  induction msgs with
  | nil =>
      rw [decode]
      rfl
  | cons msg msgs ih =>
      have hframe := (h msg (List.mem_cons_self ..)).decodeFrame_append (msgs.flatMap frameBytes)
      have hrest := ih fun other hother => h other (List.mem_cons_of_mem _ hother)
      rw [List.flatMap_cons, decode]
      split
      · rename_i hnone
        rw [hframe] at hnone
        cases hnone
      · rename_i d rest hsome
        rw [hframe] at hsome
        cases hsome
        rw [hrest]
        rfl

/-- The frames are uniquely decodable. Whatever the messages say, and whatever was in the memory
where their frames are built, a client that decodes the concatenation of the frames gets exactly
the ids, channels and contents of the messages, in order, and nothing is left of the stream. -/
theorem decode_builtFrames (msgs : List ((Nat → UInt8) × Message))
    (h : ∀ p ∈ msgs, Sendable p.2) :
    ∃ frames, msgs.mapM (fun p => buildFrame p.1 p.2) = some frames ∧
      decode frames.flatten = (msgs.map fun p =>
        (p.2.id.toNat, p.2.channelName.bytes, p.2.content.bytes), []) := by
  have hbuilt : msgs.mapM (fun p => buildFrame p.1 p.2) =
      some (msgs.map fun p => frameBytes p.2) := by
    induction msgs with
    | nil => rfl
    | cons p msgs ih =>
        rw [List.mapM_cons, (h p (List.mem_cons_self ..)).buildFrame_eq p.1,
          ih fun q hq => h q (List.mem_cons_of_mem _ hq)]
        rfl
  refine ⟨_, hbuilt, ?_⟩
  have hdecode := decode_frames (msgs.map Prod.snd) fun msg hmsg => by
    obtain ⟨p, hp, rfl⟩ := List.mem_map.mp hmsg
    exact h p hp
  rw [List.flatMap_map, List.map_map] at hdecode
  exact hdecode

/-- A message whose content looks like a header. -/
def imitatingMessage (id : UInt64) : Message :=
  ⟨id, literal "a", literal "MSG 1 a 3\nabc", 0⟩

/-- The imitating message can be sent. -/
theorem sendable_imitatingMessage (id : UInt64) : Sendable (imitatingMessage id) where
  channel_length := by
    show (literal "a").strlen ≤ 255
    decide +kernel
  channel_word := by
    show ∀ b ∈ (literal "a").bytes, isSpace b = false
    decide +kernel
  block_size := by
    show totalLen (literal "MSG 1 a 3\nabc").strlen < 2 ^ 64
    decide +kernel

/-- Two messages whose contents look like headers come back as two messages. -/
theorem decode_builtFrames_imitating :
    ∃ frames, [(fun _ => 255, imitatingMessage 7), (fun _ => 0, imitatingMessage 8)].mapM
        (fun p => buildFrame p.1 p.2) = some frames ∧
      decode frames.flatten =
        ([(7, ascii "a", ascii "MSG 1 a 3\nabc"), (8, ascii "a", ascii "MSG 1 a 3\nabc")], []) :=
  decode_builtFrames [(fun _ => 255, imitatingMessage 7), (fun _ => 0, imitatingMessage 8)]
    (by
      intro p hp
      rcases List.mem_cons.mp hp with rfl | hp
      · exact sendable_imitatingMessage 7
      · rw [List.mem_singleton.mp hp]
        exact sendable_imitatingMessage 8)

end Miez.Proofs.NetworkServer
