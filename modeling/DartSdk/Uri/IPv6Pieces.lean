import DartSdk.Uri.IPv6

namespace DartSdk.Uri
open DartSdk.Convert List

section

def Yields {ε α : Type} (kind : ε → Prop) (r : Except ε α) : Option α → Prop
  | some a => r = .ok a
  | none => ∃ e, kind e ∧ r = .error e

variable {α : Type}

lemma Yields.bind {ε β : Type} {kind : ε → Prop} {r : Except ε α} {o : Option α} {f : α → Except ε β}
    {g : α → Option β} (h : Yields kind r o) (hf : ∀ a, o = some a → Yields kind (f a) (g a)) :
    Yields kind (r >>= f) (o.bind g) := by
  cases o with
  | none =>
    obtain ⟨e, he, rfl⟩ := h
    exact ⟨e, he, rfl⟩
  | some a =>
    obtain rfl := h
    exact hf a rfl

abbrev AnyError : FormatException → Prop := fun _ => True

def IsFormat (e : ParseError) : Prop := ∃ f, e = .format f

lemma yields_illegal {msg : String} {host : Text} {position : Option ℕ} :
    Yields IsFormat (.error (illegal msg host position) : Except ParseError α) none :=
  ⟨_, ⟨_, rfl⟩, rfl⟩

lemma not_mem_of_mem_splitOn {c : CodeUnit} {t p : Text} (h : p ∈ t.splitOn c) : c ∉ p := by
  induction t generalizing p with
  | nil =>
    rw [splitOn_nil, mem_singleton] at h
    subst h
    exact not_mem_nil
  | cons u t ih =>
    rw [splitOn_cons_eq_if_modifyHead] at h
    split_ifs at h with hu
    · rcases mem_cons.1 h with rfl | h
      · exact not_mem_nil
      · exact ih h
    · have hu' : u ≠ c := fun he => hu (beq_iff_eq.2 he)
      cases hs : t.splitOn c with
      | nil => exact absurd hs (splitOn_ne_nil _ _)
      | cons q qs =>
        rw [hs] at h ih
        rcases mem_cons.1 h with rfl | h
        · intro hc
          rcases mem_cons.1 hc with rfl | hc
          · exact hu' rfl
          · exact ih mem_cons_self hc
        · exact ih (mem_cons_of_mem q h)

end

section
variable {host : Text} {stop i : ℕ} {u : CodeUnit} {p t : Text}

lemma rest_cons (h : (host.take stop).drop i = u :: t) :
    i < stop ∧ i < host.length ∧ codeUnitAt host i = u.val ∧ (host.take stop).drop (i + 1) = t := by
  have hlen := congrArg length h
  rw [length_drop, length_take, length_cons] at hlen
  have hget : (host.take stop)[i]? = some u := by
    have := congrArg head? h
    rwa [head?_drop] at this
  rw [getElem?_take_of_lt (by omega)] at hget
  refine ⟨by omega, by omega, ?_, ?_⟩
  · rw [codeUnitAt, getD_eq_getElem?_getD, hget, Option.getD_some]
  · rw [← tail_drop, h, tail_cons]

lemma rest_append (h : (host.take stop).drop i = p ++ t) : (host.take stop).drop (i + p.length) = t := by
  rw [← drop_drop, h, drop_left]

lemma substring_piece (h : (host.take stop).drop i = p ++ t) : substring host i (i + p.length) = p := by
  have hlen := congrArg length h
  rw [length_drop, length_take, length_append] at hlen
  rw [substring]
  by_cases hp : p.length = 0
  · rw [length_eq_zero_iff.1 hp, length_nil, drop_eq_nil_iff, length_take]
    exact Nat.min_le_left _ _
  · have htake := congrArg (take p.length) h
    rw [take_left, take_drop, take_take, Nat.min_eq_left (by omega)] at htake
    exact htake

end

variable {ps : List Text}

section

def decimalValue : Text → ℕ := Ascii.decimal Fin.val

def IsDigit (u : CodeUnit) : Prop := 0x30 ≤ u.val ∧ u.val ≤ 0x39

instance (u : CodeUnit) : Decidable (IsDigit u) := inferInstanceAs (Decidable (_ ∧ _))

lemma isDigit_iff (u : CodeUnit) : IsDigit u ↔ u.val ^^^ 0x30 ≤ 9 := by
  by_cases hu : u.val < 128
  · have key : ∀ n < 128, IsDigit (unit n) ↔ (unit n).val ^^^ 0x30 ≤ 9 := by decide +kernel
    exact forall_ascii (p := fun u => IsDigit u ↔ u.val ^^^ 0x30 ≤ 9) key hu
  · have hxor : (u.val ^^^ 0x30) / 2 ^ 7 = u.val / 2 ^ 7 := by
      rw [Nat.xor_div_two_pow]
      exact Nat.xor_zero _
    rw [IsDigit]
    omega

def octet (p : Text) : Option ℕ :=
  if p ≠ [] ∧ (∀ u ∈ p, IsDigit u) ∧ decimalValue p ≤ 255 then some (decimalValue p) else none

def octets : List Text → List ℕ → Option (List ℕ)
  | [], _ => none
  | [p], result => if result.length = 3 then (octet p).map (result ++ [·]) else none
  | p :: q :: ps, result =>
    if result.length = 3 then none
    else (octet p).bind fun v => octets (q :: ps) (result ++ [v])

variable {host : Text} {stop : ℕ}

lemma parseDigits_eq (p : Text) : parseDigits p = if decimalValue p < 2 ^ 63 then .ok (decimalValue p)
    else .error ⟨"Positive input exceeds the limit of integer", p, none⟩ := by
  rw [parseDigits, Ascii.parseDecimal, decimalValue]
  split_ifs <;> rfl

variable {p t : Text} {start n i : ℕ}

lemma parsePart_yields (h : (host.take stop).drop start = p ++ t)
    (hp : ∀ u ∈ p, IsDigit u) : Yields AnyError (parsePart host start (start + p.length)) (octet p) := by
  rw [parsePart, substring_piece h, parseDecimal]
  by_cases hne : p = []
  · rw [if_pos hne, octet, if_neg fun h => h.1 hne]
    exact ⟨_, trivial, rfl⟩
  rw [if_neg hne, parseDigits_eq]
  by_cases hle : decimalValue p ≤ 255
  · rw [if_pos (by omega), octet, if_pos ⟨hne, hp, hle⟩]
    exact if_neg (by omega)
  · have hnone : octet p = none := by rw [octet, if_neg fun h => hle h.2.2]
    rw [hnone]
    split_ifs
    · exact ⟨_, trivial, if_pos (by omega)⟩
    · exact ⟨_, trivial, rfl⟩

lemma parseIPv4Loop_piece (partStart : ℕ) (result : List ℕ) (hp : dot ∉ p)
    (h : (host.take stop).drop i = p ++ t) (hn : p.length ≤ n) :
    ((∀ u ∈ p, IsDigit u) ∧ parseIPv4Loop host n i partStart result =
    parseIPv4Loop host (n - p.length) (i + p.length) partStart result) ∨
    (¬ ∀ u ∈ p, IsDigit u) ∧ ∃ e, parseIPv4Loop host n i partStart result = .error e := by
  induction p generalizing n i with
  | nil => exact .inl ⟨nofun, rfl⟩
  | cons u p ih =>
    obtain ⟨n, rfl⟩ : ∃ m, n = m + 1 := ⟨n - 1, by rw [length_cons] at hn; omega⟩
    obtain ⟨-, -, hchar, hnext⟩ := rest_cons h
    obtain ⟨hne, hp⟩ := (not_or.1 (mt mem_cons.2 hp))
    have hdot : u.val ≠ dot.val := fun he => hne (Fin.ext he).symm
    rw [parseIPv4Loop, hchar, if_pos hdot]
    by_cases hdigit : IsDigit u
    · rw [if_neg (by rw [isDigit_iff] at hdigit; omega)]
      rw [length_cons] at hn ⊢
      rw [Nat.add_sub_add_right, show i + (p.length + 1) = i + 1 + p.length by omega]
      rcases ih (n := n) hp hnext (by omega) with ⟨hall, heq⟩ | ⟨hall, herr⟩
      · exact .inl ⟨forall_mem_cons.2 ⟨hdigit, hall⟩, heq⟩
      · exact .inr ⟨fun hall' => hall (forall_mem_cons.1 hall').2, herr⟩
    · rw [if_pos (by rw [isDigit_iff] at hdigit; omega)]
      exact .inr ⟨fun hall => hdigit (hall u mem_cons_self), _, rfl⟩

lemma octet_none (h : ¬ ∀ u ∈ p, IsDigit u) : octet p = none := by rw [octet, if_neg fun hp => h hp.2.1]

lemma parseIPv4Loop_yields (hps : ∀ p ∈ ps, dot ∉ p) (hne : ps ≠ [])
    {result : List ℕ} (h : (host.take stop).drop i = [dot].intercalate ps)
    (hn : n = ([dot].intercalate ps).length) (hstop : i + ([dot].intercalate ps).length = stop) :
    Yields AnyError (parseIPv4Loop host n i i result >>= fun r => lastOctet host stop r.1 r.2) (octets ps result) := by
  induction ps generalizing n i result with
  | nil => exact absurd rfl hne
  | cons p ps ih =>
    obtain ⟨hp, hps⟩ := forall_mem_cons.1 hps
    cases ps with
    | nil =>
      rw [intercalate_singleton] at h hn hstop
      rw [← append_nil p] at h
      rcases parseIPv4Loop_piece i result hp h hn.ge with ⟨hall, heq⟩ | ⟨hall, e, he⟩
      · rw [heq, hn, Nat.sub_self, octets]
        change Yields _ (lastOctet host stop i result) _
        rw [lastOctet]
        by_cases hlen : result.length = 3
        · have hpart := parsePart_yields h hall
          rw [hstop] at hpart
          rw [if_neg (not_not_intro hlen), if_pos hlen, Option.map_eq_bind]
          exact hpart.bind fun v _ => rfl
        · rw [if_pos hlen, if_neg hlen]
          exact ⟨_, trivial, rfl⟩
      · rw [he, octets, octet_none hall, Option.map_none, ite_self]
        exact ⟨e, trivial, rfl⟩
    | cons q qs =>
      rw [intercalate_cons_cons, length_append, length_append, length_singleton] at hn hstop
      rcases parseIPv4Loop_piece (n := n) i result hp h (by omega) with ⟨hall, heq⟩ | ⟨hall, e, he⟩
      · obtain ⟨-, -, hchar, hnext⟩ := rest_cons (rest_append h)
        rw [heq, show n - p.length = ([dot].intercalate (q :: qs)).length + 1 by omega, parseIPv4Loop, hchar,
          if_neg (not_not_intro rfl), octets]
        by_cases hlen : result.length = 3
        · rw [if_pos hlen, if_pos hlen]
          exact ⟨_, trivial, rfl⟩
        · rw [if_neg hlen, if_neg hlen, bind_assoc]
          apply (parsePart_yields h hall).bind
          intro v _
          exact ih hps (by simp) hnext rfl (by omega)
      · rw [he, octets, octet_none hall, Option.bind_none, ite_self]
        exact ⟨e, trivial, rfl⟩

lemma parseIPv4Address_yields (h : (host.take stop).drop start = p) (hstop : start + p.length = stop) :
    Yields AnyError (parseIPv4Address host start stop) (octets (p.splitOn dot) []) := by
  have hjoin : [dot].intercalate (p.splitOn dot) = p := intercalate_splitOn dot
  have hlen := congrArg length hjoin
  rw [← hjoin] at h
  apply parseIPv4Loop_yields (fun q hq => not_mem_of_mem_splitOn hq) (splitOn_ne_nil _ _) h
  · omega
  · omega

end

section

def group (p : Text) : Option ℤ :=
  if 4 < p.length then none
  else
    match parseRadix16 p with
    | .error _ => none
    | .ok value => if value < 0 ∨ value > 0xFFFF then none else some value

variable {host : Text} {start stop : ℕ}
variable {p t : Text} {i n : ℕ}

lemma parseHex_yields (h : (host.take stop).drop i = p ++ t) :
    Yields IsFormat (parseHex host i (i + p.length)) (group p) := by
  rw [parseHex, group, substring_piece h]
  by_cases hlen : 4 < p.length
  · rw [if_pos (by omega), if_pos hlen]
    exact yields_illegal
  rw [if_neg (by omega), if_neg hlen, if_neg (by omega)]
  cases parseRadix16 p with
  | error e => exact ⟨_, ⟨e, rfl⟩, rfl⟩
  | ok value =>
    dsimp only
    split_ifs
    · exact yields_illegal
    · rfl

structure Collected where
  parts : List ℤ
  wildcardSeen : Bool
  seenDot : Bool

def Collected.add (s : Collected) (p : Text) : Option Collected :=
  if p = [] then if s.wildcardSeen then none else some ⟨s.parts ++ [-1], true, s.seenDot⟩
  else (group p).map fun value => ⟨s.parts ++ [value], s.wildcardSeen, s.seenDot || decide (dot ∈ p)⟩

def Collected.run (s : Collected) : List Text → Option (Collected × Text)
  | [] => none
  | [p] => some (⟨s.parts, s.wildcardSeen, s.seenDot || decide (dot ∈ p)⟩, p)
  | p :: q :: ps => (s.add p).bind fun s => s.run (q :: ps)

abbrev Collected.at (s : Collected) (partStart : ℕ) : Parts := ⟨s.parts, s.wildcardSeen, s.seenDot, partStart⟩

lemma parseIPv6Loop_piece (hp : colon ∉ p) (s : Parts) (h : (host.take stop).drop i = p ++ t) (hn : p.length ≤ n) :
    parseIPv6Loop host start stop n i s = parseIPv6Loop host start stop (n - p.length) (i + p.length)
      { s with seenDot := s.seenDot || decide (dot ∈ p) } := by
  induction p generalizing n i s with
  | nil => rw [length_nil, Nat.sub_zero, Nat.add_zero, decide_eq_false not_mem_nil, Bool.or_false]
  | cons u p ih =>
    obtain ⟨n, rfl⟩ : ∃ m, n = m + 1 := ⟨n - 1, by rw [length_cons] at hn; omega⟩
    obtain ⟨hi, -, hchar, hnext⟩ := rest_cons h
    obtain ⟨hne, hp⟩ := not_or.1 (mt mem_cons.2 hp)
    have hcolon : u.val ≠ colon.val := fun he => hne (Fin.ext he).symm
    rw [length_cons] at hn ⊢
    rw [parseIPv6Loop, if_pos hi, hchar, if_neg hcolon, Nat.add_sub_add_right,
      show i + (p.length + 1) = i + 1 + p.length by omega]
    rw [ih hp _ hnext (by omega)]
    congr 1
    by_cases hu : u = dot
    · rw [if_pos (congrArg Fin.val hu), Bool.true_or, decide_eq_true (mem_cons.2 (.inl hu.symm)), Bool.or_true]
    · have hu' : u.val ≠ dot.val := fun he => hu (Fin.ext he)
      have hmem : dot ∈ u :: p ↔ dot ∈ p := by
        rw [mem_cons]
        exact or_iff_right fun he => hu he.symm
      rw [if_neg hu', decide_eq_decide.2 hmem]

lemma endPart_yields (s : Collected) (h : (host.take stop).drop i = p ++ t) :
    Yields IsFormat (endPart host (i + p.length) ({ s with seenDot := s.seenDot || decide (dot ∈ p) }.at i))
      ((s.add p).map (·.at (i + p.length + 1))) := by
  rw [endPart, Collected.add]
  by_cases hp : p = []
  · subst hp
    rw [length_nil, Nat.add_zero, decide_eq_false not_mem_nil, Bool.or_false]
    rw [if_pos rfl]
    by_cases hw : s.wildcardSeen = true
    · rw [if_pos hw, if_pos hw]
      exact yields_illegal
    · rw [if_neg hw, if_neg hw]
      rfl
  · have hlen : i + p.length ≠ i := by
      have := length_pos_iff.2 hp
      omega
    rw [if_neg hp, if_neg hlen, Option.map_map, Option.map_eq_bind]
    apply (parseHex_yields h).bind
    intro value _
    rfl

lemma parseIPv6Loop_yields (hps : ∀ p ∈ ps, colon ∉ p) (hne : ps ≠ [])
    (s : Collected) (hi : start < i ∨ ps.head? ≠ some []) (h : (host.take stop).drop i = [colon].intercalate ps)
    (hn : ([colon].intercalate ps).length ≤ n) (hstop : i + ([colon].intercalate ps).length = stop) (hle : start ≤ i) :
    Yields IsFormat (parseIPv6Loop host start stop n i (s.at i))
      ((s.run ps).map fun r => r.1.at (stop - r.2.length)) := by
  induction ps generalizing n i s with
  | nil => exact absurd rfl hne
  | cons p ps ih =>
    obtain ⟨hp, hps⟩ := forall_mem_cons.1 hps
    cases ps with
    | nil =>
      rw [intercalate_singleton] at h hn hstop
      rw [← append_nil p] at h
      rw [parseIPv6Loop_piece hp _ h hn, Collected.run, Option.map_some]
      have hend : parseIPv6Loop host start stop (n - p.length) (i + p.length)
          ({ s with seenDot := s.seenDot || decide (dot ∈ p) }.at i) =
          .ok ({ s with seenDot := s.seenDot || decide (dot ∈ p) }.at i) := by
        cases n - p.length with
        | zero => rfl
        | succ m => exact if_neg (by omega)
      rw [show stop - p.length = i by omega]
      exact hend
    | cons q qs =>
      rw [intercalate_cons_cons, length_append, length_append, length_singleton] at hn hstop
      obtain ⟨hlt, -, hchar, hnext⟩ := rest_cons (rest_append h)
      have hstart : i + p.length ≠ start := by
        rcases hi with hi | hi
        · omega
        · have hpos : 0 < p.length := by
            apply length_pos_iff.2
            intro he
            exact hi (by rw [he, head?_cons])
          omega
      rw [parseIPv6Loop_piece hp _ h (by omega), show n - p.length = n - p.length - 1 + 1 by omega,
        parseIPv6Loop, if_pos hlt, hchar, if_neg hstart, Collected.run]
      have hpart := endPart_yields s h
      cases hadd : s.add p with
      | none =>
        rw [hadd] at hpart
        obtain ⟨e, he, hpart⟩ := hpart
        refine ⟨e, he, ?_⟩
        rw [hpart]
        rfl
      | some s' =>
        rw [hadd] at hpart
        rw [hpart]
        exact ih hps (by simp) s' (.inl (by omega)) hnext (by omega) (by omega) (by omega)

end

section Whole

def lastPiece (s : Collected) (p : Text) : Option (List ℤ) :=
  if p = [] then if s.parts.getLast? = some (-1) then some s.parts else none
  else if s.seenDot = false then (group p).map fun value => s.parts ++ [value]
  else (octets (p.splitOn dot) []).map fun last =>
    s.parts ++ [((last.getD 0 0 <<< 8 ||| last.getD 1 0 : ℕ) : ℤ), ((last.getD 2 0 <<< 8 ||| last.getD 3 0 : ℕ) : ℤ)]

def finishPieces (r : Collected × Text) : Option (List ℕ) :=
  if r.1.parts.length = 0 then none
  else (lastPiece r.1 r.2).bind fun parts =>
    if r.1.wildcardSeen then
      if parts.length > 7 then none else some (parts.flatMap (partBytes (9 - parts.length)))
    else if parts.length ≠ 8 then none else some (parts.flatMap (partBytes (9 - parts.length)))

def parsePieces : List Text → Option (List ℕ)
  | [] :: [] :: p :: ps => ((⟨[-1], true, false⟩ : Collected).run (p :: ps)).bind finishPieces
  | [] :: _ => none
  | ps => ((⟨[], false, false⟩ : Collected).run ps).bind finishPieces

def LoneColon (host : Text) (start stop : ℕ) : Prop :=
  2 ≤ host.length ∧ substring host start stop = [colon] ∧ (stop = host.length ∨ codeUnitAt host stop = colon.val)

variable {host : Text} {start stop : ℕ}

section
variable {p : Text} (s : Collected) (h : (host.take stop).drop (stop - p.length) = p) (hstop : p.length ≤ stop)
include s h hstop

lemma lastPart_yields : Yields IsFormat (lastPart host stop (s.at (stop - p.length))) (lastPiece s p) := by
  have hsum : stop - p.length + p.length = stop := Nat.sub_add_cancel hstop
  rw [lastPart, lastPiece]
  dsimp only
  by_cases hp : p = []
  · rw [if_pos (by rw [hp, length_nil, Nat.sub_zero])]
    split_ifs
    · rfl
    · exact yields_illegal
  have hpos : 0 < p.length := length_pos_iff.2 hp
  rw [if_neg hp, if_neg (by omega)]
  by_cases hdot : s.seenDot = false
  · rw [if_pos hdot, if_pos hdot, Option.map_eq_bind]
    rw [← append_nil p] at h
    have hhex := parseHex_yields (p := p) (by rwa [append_nil] at h ⊢)
    rw [hsum] at hhex
    exact hhex.bind fun value _ => rfl
  · rw [if_neg hdot, if_neg hdot]
    have hquad := parseIPv4Address_yields h hsum
    cases hoctets : octets (p.splitOn dot) [] with
    | none =>
      rw [hoctets] at hquad
      obtain ⟨e, -, he⟩ := hquad
      rw [he]
      exact ⟨_, ⟨e, rfl⟩, rfl⟩
    | some last =>
      rw [hoctets] at hquad
      rw [show parseIPv4Address host (stop - p.length) stop = .ok last from hquad]
      rfl

lemma addressBytes_yields :
    Yields IsFormat (addressBytes host stop (s.at (stop - p.length))) (finishPieces (s, p)) := by
  rw [addressBytes, finishPieces]
  by_cases hparts : s.parts.length = 0
  · rw [if_pos hparts, if_pos hparts]
    exact yields_illegal
  · rw [if_neg hparts, if_neg hparts]
    apply (lastPart_yields s h hstop).bind
    intro parts _
    split_ifs
    · exact yields_illegal
    · rfl
    · exact yields_illegal
    · rfl

end

variable {p : Text}

lemma run_last {s r : Collected} (h : s.run ps = some (r, p)) : ∃ t, [colon].intercalate ps = t ++ p := by
  induction ps generalizing s with
  | nil => cases h
  | cons q qs ih =>
    cases qs with
    | nil =>
      cases h
      exact ⟨[], by rw [intercalate_singleton, nil_append]⟩
    | cons q' qs =>
      obtain ⟨s', -, h⟩ := Option.bind_eq_some_iff.1 h
      obtain ⟨t, ht⟩ := ih h
      exact ⟨q ++ [colon] ++ t, by rw [intercalate_cons_cons, ht, ← append_assoc]⟩

lemma loop_addressBytes_yields (hps : ∀ p ∈ ps, colon ∉ p) (hne : ps ≠ []) {n i : ℕ}
    (s : Collected) (hi : start < i ∨ ps.head? ≠ some []) (h : (host.take stop).drop i = [colon].intercalate ps)
    (hn : ([colon].intercalate ps).length ≤ n) (hstop : i + ([colon].intercalate ps).length = stop) (hle : start ≤ i) :
    Yields IsFormat (parseIPv6Loop host start stop n i (s.at i) >>= addressBytes host stop)
    ((s.run ps).bind finishPieces) := by
  have hloop := parseIPv6Loop_yields hps hne s hi h hn hstop hle
  cases hrun : s.run ps with
  | none =>
    rw [hrun] at hloop
    obtain ⟨e, he, hloop⟩ := hloop
    rw [hloop]
    exact ⟨e, he, rfl⟩
  | some r =>
    rw [hrun] at hloop
    rw [show parseIPv6Loop host start stop n i (s.at i) = .ok (r.1.at (stop - r.2.length)) from hloop]
    obtain ⟨t, ht⟩ := run_last hrun
    have hlen := congrArg length ht
    rw [length_append] at hlen
    apply addressBytes_yields
    · rw [ht] at h
      rw [show stop - r.2.length = i + t.length by omega]
      exact rest_append h
    · omega

lemma endPart_first (i : ℕ) : endPart host i ⟨[], false, false, i⟩ = .ok ⟨[-1], true, false, i + 1⟩ := by
  rw [endPart, if_pos rfl]
  rfl

lemma parsePieces_cons (hp : p ≠ []) :
    parsePieces (p :: ps) = ((⟨[], false, false⟩ : Collected).run (p :: ps)).bind finishPieces := by
  cases p with
  | nil => exact absurd rfl hp
  | cons u p => rfl

lemma colon_first_yields {q : Text} {qs : List Text} (hlone : ¬LoneColon host start stop) (hstop : stop ≤ host.length)
    (hcolon : ∀ p ∈ q :: qs, colon ∉ p) (hjoin : [colon].intercalate ([] :: q :: qs) = substring host start stop)
    (hlen : ([colon].intercalate ([] :: q :: qs)).length = stop - start) :
    Yields IsFormat (parseIPv6Address host start stop) (parsePieces ([] :: q :: qs)) := by
  obtain ⟨hcq, hcqs⟩ := forall_mem_cons.1 hcolon
  have hrest : (host.take stop).drop start = [colon].intercalate ([] :: q :: qs) := hjoin.symm
  rw [intercalate_cons_cons, nil_append] at hrest hlen
  rw [length_append, length_singleton] at hlen
  obtain ⟨hlt, -, hchar, hnext⟩ := rest_cons hrest
  have hn : stop - start = stop - start - 1 + 1 := by omega
  rw [parseIPv6Address]
  cases q with
  | nil =>
    cases qs with
    | nil =>
      -- Only the colon: what comes after the range decides.
      rw [intercalate_singleton, length_nil] at hlen
      have htext : substring host start stop = [colon] := by rw [← hjoin]; rfl
      split_ifs with hsmall
      · exact yields_illegal
      · rw [hn, parseIPv6Loop, if_pos hlt, hchar, if_pos rfl, if_pos rfl]
        have hlone' : ¬(stop = host.length ∨ codeUnitAt host stop = colon.val) := fun h => hlone ⟨by omega, htext, h⟩
        obtain ⟨hend, hafter⟩ := not_or.1 hlone'
        rw [if_neg (by omega), if_pos (by rwa [show start + 1 = stop by omega])]
        exact yields_illegal
    | cons p ps =>
      rw [intercalate_cons_cons, nil_append] at hnext hlen
      rw [length_append, length_singleton] at hlen
      obtain ⟨-, hlt', hchar', hnext'⟩ := rest_cons hnext
      rw [if_neg (by omega), hn, parseIPv6Loop, if_pos hlt, hchar, if_pos rfl, if_pos rfl, if_neg (by omega), hchar']
      dsimp only
      rw [endPart_first]
      exact loop_addressBytes_yields hcqs (by simp)
        ⟨[-1], true, false⟩ (.inl (by omega)) hnext' (by omega) (by omega) (by omega)
  | cons u q =>
    have hhead : ∃ t, [colon].intercalate ((u :: q) :: qs) = u :: t := by
      cases qs with
      | nil => exact ⟨q, by rw [intercalate_singleton]⟩
      | cons r rs => exact ⟨_, by rw [intercalate_cons_cons, append_assoc, cons_append]⟩
    obtain ⟨t, ht⟩ := hhead
    rw [ht] at hnext
    obtain ⟨-, hlt', hchar', -⟩ := rest_cons hnext
    have hu : u.val ≠ colon.val := fun he => hcq (mem_cons.2 (.inl (Fin.ext he).symm))
    split_ifs
    · exact yields_illegal
    · rw [hn, parseIPv6Loop, if_pos hlt, hchar, if_pos rfl, if_pos rfl, if_neg (by omega), hchar', if_pos hu]
      exact yields_illegal

lemma parseIPv6Address_yields (hle : start ≤ stop) (hstop : stop ≤ host.length) (hlone : ¬LoneColon host start stop) :
    Yields IsFormat (parseIPv6Address host start stop) (parsePieces ((substring host start stop).splitOn colon)) := by
  have hlen : (substring host start stop).length = stop - start := by
    rw [substring, length_drop, length_take]
    omega
  have hjoin : [colon].intercalate ((substring host start stop).splitOn colon) = substring host start stop :=
    intercalate_splitOn colon
  have hcolon : ∀ p ∈ (substring host start stop).splitOn colon, colon ∉ p := fun p => not_mem_of_mem_splitOn
  have hne : (substring host start stop).splitOn colon ≠ [] := splitOn_ne_nil _ _
  generalize (substring host start stop).splitOn colon = ps at *
  rw [← hjoin] at hlen
  cases ps with
  | nil => exact absurd rfl hne
  | cons p ps =>
    by_cases hp : p = []
    · subst hp
      cases ps with
      | nil =>
        -- The range is empty.
        rw [parseIPv6Address]
        split_ifs
        · exact yields_illegal
        · rw [← hlen]
          exact yields_illegal
      | cons q qs => exact colon_first_yields hlone hstop (forall_mem_cons.1 hcolon).2 hjoin hlen
    · rw [parsePieces_cons hp, parseIPv6Address]
      split_ifs with hsmall
      · -- One character that is no colon.
        cases ps with
        | nil => exact yields_illegal
        | cons q qs =>
          rw [intercalate_cons_cons, length_append, length_append, length_singleton] at hlen
          have := length_pos_iff.2 hp
          omega
      · apply loop_addressBytes_yields hcolon hne ⟨[], false, false⟩ (.inr _) hjoin.symm hlen.le (by omega) le_rfl
        exact fun h => hp (Option.some.inj h)

lemma parseIPv6Address_loneColon (hle : start ≤ stop) (hstop : stop ≤ host.length)
    (h : LoneColon host start stop) : parseIPv6Address host start stop = .error .range := by
  obtain ⟨hlen, htext, hafter⟩ := h
  obtain ⟨hlt, -, hchar, -⟩ := rest_cons htext
  have hone := congrArg length htext
  rw [substring, length_drop, length_take, length_singleton] at hone
  obtain rfl : stop = start + 1 := by omega
  rw [parseIPv6Address, if_neg (by omega), Nat.add_sub_cancel_left, parseIPv6Loop, if_pos hlt, hchar, if_pos rfl,
    if_pos rfl]
  rcases hafter with hend | hcolon
  · rw [if_pos hend.ge]
    rfl
  · split_ifs with hend
    · rfl
    · exact absurd hcolon ‹_›
    · have hhex : parseHex host (start + 1 + 1) (start + 1) = .error .range := by
        rw [parseHex, if_neg (by omega), if_pos (by omega)]
      rw [endPart_first]
      change addressBytes host (start + 1) ⟨[-1], true, false, start + 1 + 1⟩ = _
      rw [addressBytes]
      rw [lastPart, if_neg (Nat.succ_ne_self _), hhex]
      rfl

end Whole
end DartSdk.Uri
