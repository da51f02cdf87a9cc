import Octet.Proofs.Literals

/-!
# Values as text

A value is written in decimal, with its sign, or in hexadecimal, two digits for each byte. Both texts are
literals of the source language. The decimal one denotes the signed reading and the hexadecimal one the
magnitude, and at the width of the value both come back to the value.

* `Numeral.toList_hex`: padded hexadecimal digits are the low digits of the number.
* `Value.toList_hex`: **the hexadecimal digits of a value are those of its bytes, the last byte first.**
* `IsNumeral`: a text that is a literal, with a sign or without.
* `Value.isNumeral_decimal`, `Value.isNumeral_hexLiteral`: what the two texts of a value denote.
* `Value.rendering_reads_back`: **printed values read back**, as operands and in running machines.
-/

namespace Octet

open Token

namespace Numeral

/-- The two hexadecimal digits of a byte, the upper one first. -/
def byteDigits (b : UInt8) : List Char :=
  [Nat.digitChar (b.toNat / 16), Nat.digitChar (b.toNat % 16)]

/-- The `n` low hexadecimal digits of a number, the least significant one last. -/
def lowDigits : Nat → Nat → List Char
  | 0, _ => []
  | n + 1, m => lowDigits n (m / 16) ++ [Nat.digitChar (m % 16)]

theorem length_lowDigits (n : Nat) : ∀ m, (lowDigits n m).length = n := by
  induction n with
  | zero => intro m; rfl
  | succ n ih => intro m; simp [lowDigits, ih]

theorem lowDigits_zero (n : Nat) : lowDigits n 0 = List.replicate n '0' := by
  induction n with
  | zero => rfl
  | succ n ih =>
    rw [lowDigits, Nat.zero_div, ih, List.replicate_succ']
    rfl

/-- **Padded hexadecimal digits are the low digits of the number.** -/
theorem toList_hex {n : Nat} (hn : 0 < n) : ∀ {m : Nat}, m < 16 ^ n → (hex n m).toList = lowDigits n m := by
  induction n with
  | zero => exact absurd hn (Nat.lt_irrefl 0)
  | succ n ih =>
    intro m hm
    unfold hex
    rw [String.toList_ofList, lowDigits]
    by_cases hsmall : m < 16
    · have hdiv : m / 16 = 0 := by omega
      have hmod : m % 16 = m := by omega
      rw [Nat.toDigits_of_lt_base hsmall, hdiv, hmod, lowDigits_zero, List.length_singleton, Nat.add_sub_cancel]
    · -- the last digit comes off the end, and there is room for the others
      have hpos : 0 < n := by
        apply Nat.pos_of_ne_zero
        rintro rfl
        exact hsmall hm
      have hquotient : m / 16 < 16 ^ n := by
        rw [Nat.pow_succ] at hm
        omega
      have hdigits : Nat.toDigits 16 m = Nat.toDigits 16 (m / 16) ++ [Nat.digitChar (m % 16)] := by
        have := Nat.toDigits_append_toDigits (b := 16) (n := m / 16) (d := m % 16) (by decide) (by omega)
          (Nat.mod_lt m (by decide))
        rw [Nat.div_add_mod, Nat.toDigits_of_lt_base (Nat.mod_lt m (by decide))] at this
        exact this.symm
      have hfront := ih hpos hquotient
      unfold hex at hfront
      rw [String.toList_ofList] at hfront
      rw [hdigits, List.length_append, List.length_singleton, Nat.add_sub_add_right, ← List.append_assoc, hfront]

/-- A byte is two digits. -/
theorem lowDigits_bytes (n : Nat) : ∀ m,
    lowDigits (2 * n) m = (Bytes.ofNat n m).reverse.flatMap byteDigits := by
  induction n with
  | zero => intro m; rfl
  | succ n ih =>
    intro m
    have hbyte : byteDigits (UInt8.ofNat m) = [Nat.digitChar (m / 16 % 16), Nat.digitChar (m % 16)] := by
      have hupper : m % 2 ^ 8 / 16 = m / 16 % 16 := by omega
      have hlower : m % 2 ^ 8 % 16 = m % 16 := by omega
      unfold byteDigits
      rw [UInt8.toNat_ofNat', hupper, hlower]
    rw [Nat.mul_succ, lowDigits, lowDigits, Nat.div_div_eq_div_mul, ih, Bytes.ofNat, List.reverse_cons,
      List.flatMap_append, List.flatMap_singleton, hbyte, List.append_assoc]
    rfl

/-- Low digits denote the remainder. -/
theorem denotes_lowDigits (n : Nat) : ∀ m, Denotes 16 (lowDigits (n + 1) m) (m % 16 ^ (n + 1)) := by
  induction n with
  | zero =>
    intro m
    rw [lowDigits, lowDigits, List.nil_append, Nat.zero_add, Nat.pow_one]
    exact .single (Nat.mod_lt m (by decide))
  | succ n ih =>
    intro m
    have hvalue : m % 16 ^ (n + 1 + 1) = m / 16 % 16 ^ (n + 1) * 16 + m % 16 := by
      rw [Nat.pow_succ, Nat.mul_comm, Nat.mod_mul]
      omega
    rw [lowDigits, hvalue]
    exact .concat (ih (m / 16)) (Nat.mod_lt m (by decide))

theorem denotes_decimal (n : Nat) : Denotes 10 (decimal n).toList n := by
  rw [toList_decimal]
  refine denotes_of_value? ?_ (value?_toDigits (by decide) (by decide) n)
  intro c hc
  exact (isWordChar_of_isDigit (Nat.isDigit_of_mem_toDigits (by decide) (by decide) hc)).2

end Numeral

namespace Value

theorem lt_sixteen_pow (v : Value) : v.magnitude < 16 ^ (2 * v.width.bytes) := by
  have hmodulus : 16 ^ (2 * v.width.bytes) = v.width.modulus := Nat.pow_mul 16 2 v.width.bytes
  rw [hmodulus]
  exact v.lt_modulus

theorem toList_hex_lowDigits (v : Value) : v.hex.toList = Numeral.lowDigits (2 * v.width.bytes) v.magnitude :=
  Numeral.toList_hex (Nat.mul_pos (by decide) v.width.pos) v.lt_sixteen_pow

/-- **The hexadecimal digits of a value are those of its bytes, the last byte first.** -/
theorem toList_hex (v : Value) : v.hex.toList = v.bytes.reverse.flatMap Numeral.byteDigits := by
  rw [toList_hex_lowDigits, Numeral.lowDigits_bytes]
  rfl

/-- A value has two hexadecimal digits for each byte, whatever it is. -/
theorem length_hex (v : Value) : v.hex.toList.length = 2 * v.width.bytes := by
  rw [toList_hex_lowDigits, Numeral.length_lowDigits]

/-- The hexadecimal digits of a value denote its magnitude. -/
theorem denotes_hex (v : Value) : Numeral.Denotes 16 v.hex.toList v.magnitude := by
  obtain ⟨n, hn⟩ : ∃ n, 2 * v.width.bytes = n + 1 := ⟨2 * v.width.bytes - 1, by have := v.width.pos; omega⟩
  have hdenotes := Numeral.denotes_lowDigits n v.magnitude
  have hlt := v.lt_sixteen_pow
  rw [hn] at hlt
  rw [Nat.mod_eq_of_lt hlt, ← hn, ← toList_hex_lowDigits] at hdenotes
  exact hdenotes

end Value

/-- A text that is a literal, with a sign before it or none, and the integer that it denotes. -/
def IsNumeral (text : String) (z : Int) : Prop :=
  ∃ (sign : Sign) (word : String) (n : Nat), IsLiteral word n ∧ text = sign.text ++ word ∧ z = sign.apply n

namespace Value

/-- The decimal text of a value denotes its signed reading. -/
theorem isNumeral_decimal (v : Value) : IsNumeral v.decimal v.signed := by
  have hliteral : IsLiteral (Numeral.decimal v.signed.natAbs) v.signed.natAbs := by
    have h := IsLiteral.decimal (Numeral.denotes_decimal v.signed.natAbs)
    rwa [String.ofList_toList] at h
  unfold decimal Numeral.integer
  by_cases hneg : v.signed < 0
  · rw [if_pos hneg]
    refine ⟨.minus, _, _, hliteral, rfl, ?_⟩
    show v.signed = -(v.signed.natAbs : Int)
    omega
  · rw [if_neg hneg]
    refine ⟨.absent, _, _, hliteral, String.empty_append.symm, ?_⟩
    show v.signed = (v.signed.natAbs : Int)
    omega

/-- The hexadecimal text of a value denotes its magnitude. -/
theorem isNumeral_hexLiteral (v : Value) : IsNumeral v.hexLiteral v.magnitude := by
  refine ⟨.absent, _, _, .hexadecimal v.denotes_hex, ?_, rfl⟩
  apply String.toList_injective
  simp [hexLiteral, Sign.text]

end Value

/-- Commas before operands do not count. -/
theorem Spelling.commas {ts : List Token} {os : List Operand} (h : Spelling ts os) (k : Nat) :
    Spelling (List.replicate k (.mark ',') ++ ts) os := by
  induction k with
  | zero => exact h
  | succ k ih => exact .comma ih

namespace IsNumeral

variable {text : String} {z : Int}

/-- **The tokens of a numeral are those of a literal.** The reader may drop bits of it, but none that count at a
width. -/
theorem exists_spelled (h : IsNumeral text z) :
    ∃ y : Int, (Operand.literal y).Spelled (scan text) ∧ (∀ w : Width, Value.ofInt y w = Value.ofInt z w) ∧
      ∀ name : String, IsWord name.toLower.toList →
        scan (Opcode.mov.mnemonic ++ " " ++ name ++ ", " ++ text) =
          .word Opcode.mov.mnemonic :: .word name.toLower :: .mark ',' :: scan text := by
  obtain ⟨sign, word, n, hliteral, rfl, rfl⟩ := h
  have hword := isWord_of_isLiteral hliteral
  have hlower : word.toLower = word := by
    apply String.toList_injective
    rw [toList_toLower]
    exact (List.map_congr_left fun c hc => (hword.char c hc).2).trans (List.map_id _)
  have hlowerWord : IsWord word.toLower.toList := by rwa [hlower]
  have htokens : scan (sign.text ++ word) = sign.tokens ++ [.word word] := by
    rw [scan_of_not_mem, String.toList_append, sign.scanFrom_text hlowerWord, hlower]
    simp [sign.semicolon_not_mem_text, semicolon_not_mem_caseless hlowerWord]
  refine ⟨sign.apply (n % Numeral.wordBound), ?_, sign.ofInt_apply_mod n, ?_⟩
  · rw [htokens]
    exact sign.spelled hliteral
  · intro name hname
    have hline := Statement.scan_binary sign hlowerWord hname .mov
    rw [hlower] at hline
    rw [htokens, ← String.append_assoc]
    exact hline

end IsNumeral

/-- A line that moves a literal into a name, with commas anywhere. -/
theorem Statement.parse_mov {ts : List Token} {y : Int} (hspelled : (Operand.literal y).Spelled ts) {name : String}
    (hname : IsName name) (number : Nat) {line : String} {a b c : Nat}
    (hline : scan line = .word Opcode.mov.mnemonic :: (List.replicate a (.mark ',') ++
      .word name :: (List.replicate b (.mark ',') ++ (ts ++ List.replicate c (.mark ','))))) :
    parse number line = .ok (some (.instruction (.binary .mov name (.literal y)))) := by
  have hlast : Spelling (List.replicate c (.mark ',')) [] := by
    have h := Spelling.nil.commas c
    rwa [List.append_nil] at h
  have hoperands : Spelling (List.replicate a (.mark ',') ++ .word name ::
      (List.replicate b (.mark ',') ++ (ts ++ List.replicate c (.mark ',')))) [.name name, .literal y] :=
    (Spelling.operand (spelled_of_isName hname) ((Spelling.operand hspelled hlast).commas b)).commas a
  rw [parse_eq_ok_iff, hline]
  exact ofTokens_of_derives (.statement hoperands (.mov _ _))

/-- A step executes the next instruction, after it has been logged and before it is counted. -/
theorem Machine.step_of_execute {s t : State} {i : Instruction} (hi : s.machine.current? = some i)
    (ht : (execute i).run (s.announced i) = .ok () t) : step.run s = .ok () (t.retired i) := by
  unfold step
  simp only [EStateM.run_bind, EStateM.run_get, hi, run_announce, ht]
  rfl

/-- Moving a literal into a name gives the name the literal, reduced to its width. -/
theorem State.execute_mov {s : State} (hs : s.environment.Sound) {name : String} {u : View}
    (hu : s.machine.scope.lookup? name = some u) (y : Int) :
    ∃ t, (Machine.execute (.binary .mov name (.literal y))).run s = .ok () t ∧
      t.machine.read t.store name = .ok (.ofInt y u.width) :=
  ⟨_, Machine.run_execute_literal hu .mov y, State.read_assign hs hu rfl⟩

/-- **Printed values read back.** The hexadecimal text of a value is `0x` and exactly two digits for each byte, in
lowercase, the last byte first. This text and the decimal one, as the source of a line that moves them into a name,
are an operand that has the value again at its width: on the line as it is usually written, and on every other line
with the same tokens and with commas anywhere. In every state that calls lead a loaded machine to, moving the
operand into a name of that width gives the name the value, as an instruction by itself and as the next step. -/
theorem Value.rendering_reads_back (v : Value) :
    (v.hexLiteral = "0x" ++ v.hex ∧ v.hex.toList.length = 2 * v.width.bytes ∧
      (∀ c ∈ v.hex.toList, c ∈ "0123456789abcdef".toList) ∧
      v.hex.toList = v.bytes.reverse.flatMap Numeral.byteDigits) ∧
    ∀ text ∈ [v.decimal, v.hexLiteral], ∃ source : Operand,
      (∀ (number : Nat) (name : String), IsName name.toLower →
        Statement.parse number (Opcode.mov.mnemonic ++ " " ++ name ++ ", " ++ text) =
          .ok (some (.instruction (.binary .mov name.toLower source)))) ∧
      (∀ (number : Nat) (name line : String) (a b c : Nat), IsName name →
        scan line = .word Opcode.mov.mnemonic :: (List.replicate a (.mark ',') ++
          .word name :: (List.replicate b (.mark ',') ++ (scan text ++ List.replicate c (.mark ',')))) →
        Statement.parse number line = .ok (some (.instruction (.binary .mov name source)))) ∧
      (∀ (scope : Scope) (s : Store), scope.resolve s source v.width.bytes = .ok v) ∧
      ∀ (p : Program) (settings : Settings) (w w' : World) (m : Machine),
        (Machine.load p settings).run w = .ok m w' → ∀ s, Reaches ⟨w', m⟩ s →
          ∀ name u, s.machine.scope.lookup? name = some u → u.width = v.width →
            (∃ t, (Machine.execute (.binary .mov name source)).run s = .ok () t ∧
              t.machine.read t.store name = .ok v) ∧
            (s.machine.current? = some (.binary .mov name source) →
              ∃ t, Machine.step.run s = .ok () t ∧ t.machine.read t.store name = .ok v) := by
  refine ⟨⟨rfl, v.length_hex, ?_, v.toList_hex⟩, ?_⟩
  · intro c hc
    have hdigit : ∀ d < 16, Nat.digitChar d ∈ "0123456789abcdef".toList := by decide
    obtain ⟨d, hd, rfl⟩ := v.denotes_hex.char c hc
    exact hdigit d hd
  · intro text htext
    obtain ⟨z, hz, hv⟩ : ∃ z, IsNumeral text z ∧ ofInt z v.width = v := by
      rcases List.mem_cons.1 htext with rfl | htext
      · exact ⟨_, v.isNumeral_decimal, v.ofInt_signed⟩
      · rw [List.mem_singleton.1 htext]
        exact ⟨_, v.isNumeral_hexLiteral, v.ofInt_magnitude⟩
    obtain ⟨y, hspelled, hy, hplain⟩ := hz.exists_spelled
    rw [← hy v.width] at hv
    refine ⟨.literal y, ?_, ?_, ?_, ?_⟩
    · intro number name hname
      refine Statement.parse_mov (a := 0) (b := 1) (c := 0) hspelled hname number ?_
      rw [hplain name hname.word, List.replicate_zero, List.append_nil]
      rfl
    · intro number name line a b c hname hline
      exact Statement.parse_mov hspelled hname number hline
    · intro scope s
      exact (make_bytes y v.width).trans (congrArg Except.ok hv)
    · intro p settings w w' m hload s hs name u hu hwidth
      have hsound := hs.sound hload
      have hexecute : ∀ {r : State}, r.environment.Sound → r.machine.scope.lookup? name = some u →
          ∃ t, (Machine.execute (.binary .mov name (.literal y))).run r = .ok () t ∧
            t.machine.read t.store name = .ok v := by
        intro r hr hlookup
        have h := State.execute_mov hr hlookup y
        rwa [hwidth, hv] at h
      refine ⟨hexecute hsound hu, ?_⟩
      intro hnext
      -- the log entry of the step changes neither the names nor the store
      have hannounced := (sound_stable.announced hsound) (.binary .mov name (.literal y))
      obtain ⟨t, ht, hread⟩ := hexecute hannounced (by rw [State.machine_announced, hu])
      exact ⟨_, Machine.step_of_execute hnext ht, hread⟩

/-- The least value of eight bytes in decimal, which has no counterpart above zero; and the least word in
hexadecimal, moved into a `dx` that has a block of its own. -/
theorem Value.rendering_reads_back_least :
    (let least : Value := .ofInt (-9223372036854775808) ⟨8, by decide, by decide⟩
      ∃ source, Statement.parse 1 "mov Total, -9223372036854775808" =
          .ok (some (.instruction (.binary .mov "total" source))) ∧
        Scope.resolve ⟨[], [], ⟨0⟩, ⟨0⟩⟩ .empty source 8 = .ok least) ∧
    ∃ source, Statement.parse 2 "mov dx, 0x8000 ; least" = .ok (some (.instruction (.binary .mov "dx" source))) ∧
      ∃ m w', (Machine.load Program.overfull ⟨true, none, .rebind⟩).run .empty = .ok m w' ∧
        let s := (session State.perform ⟨w', m⟩ [.step, .step]).2
        ∃ t, (Machine.execute (.binary .mov "dx" source)).run s = .ok () t ∧
          t.machine.read t.store "dx" = .ok (.ofInt (-32768) .word) := by
  constructor
  · intro least
    obtain ⟨source, hparse, -, hresolve, -⟩ :=
      (rendering_reads_back least).2 least.decimal List.mem_cons_self
    have hline : Opcode.mov.mnemonic ++ " " ++ "Total" ++ ", " ++ least.decimal =
        "mov Total, -9223372036854775808" := by decide +kernel
    have hlower : "Total".toLower = "total" := by decide +kernel
    have hparsed := hparse 1 "Total" (by decide +kernel)
    rw [hline, hlower] at hparsed
    exact ⟨source, hparsed, hresolve _ _⟩
  · obtain ⟨source, -, hparse, -, hrun⟩ :=
      (rendering_reads_back (.ofInt (-32768) .word)).2 _ (List.mem_cons_of_mem _ List.mem_cons_self)
    have hline := hparse 2 "dx" "mov dx, 0x8000 ; least" 0 1 0 (by decide +kernel) (by decide +kernel)
    obtain ⟨t, ht, hread⟩ := (hrun Program.overfull ⟨true, none, .rebind⟩ .empty _ _ rfl _
      ⟨[.step, .step], rfl⟩ "dx" _ rfl rfl).1
    exact ⟨source, hline, _, _, rfl, t, ht, hread⟩

end Octet
