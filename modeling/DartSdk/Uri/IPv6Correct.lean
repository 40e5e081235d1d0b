import DartSdk.Uri.IPv6Grammar

namespace DartSdk.Uri
open DartSdk.Convert List
variable {text : Text}

lemma lax_iff {bytes : List ℕ} : parsePieces (text.splitOn colon) = some bytes ↔
    ∃ vs, Address LaxGroup LaxOctet 6 text vs ∧ bytes = addressOctets vs := by
  rw [parsePieces_iff]
  constructor
  · rintro (⟨vs, hvs, hlen, rfl⟩ | ⟨ls, lvs, qs, hsplit, hls, rs, rvs, rfl, hrs, hlen, rfl⟩)
    · exact ⟨vs, .inl ⟨_, (intercalate_splitOn colon).symm, hvs, hlen⟩, rfl⟩
    · refine ⟨_, .inr ⟨_, hlen, ls, lvs, rs, rvs, ?_, hls, hrs, rfl, rfl⟩, rfl⟩
      apply splitOn_injective
      rw [hsplit, splitOn_compressed (fun p hp => (groups_mem hls hp).2.1) fun p hp => (hrs.spec.1 p hp).2]
  · rintro ⟨vs, ⟨ps, rfl, hps, hlen⟩ | ⟨n, hn, ls, lvs, rs, rvs, rfl, hls, hrs, rfl, rfl⟩, rfl⟩
    · left
      have hne : ps ≠ [] := by
        rintro rfl
        have := hps.spec.2
        rw [hlen] at this
        simp at this
      rw [splitOn_joinColons fun p hp => (hps.spec.1 p hp).2, pad_of_ne_nil hne]
      exact ⟨vs, hps, hlen, rfl⟩
    · right
      rw [splitOn_compressed (fun p hp => (groups_mem hls hp).2.1) fun p hp => (hrs.spec.1 p hp).2]
      exact ⟨ls, lvs, _, rfl, hls, rs, rvs, rfl, hrs, hn, rfl⟩

variable {vs : List ℕ} {ps : List Text} {p : Text} {n : ℕ} {ws : List ℕ}

section
variable {g g' o o' : Text → ℕ → Prop}

lemma Quad.imp (h : ∀ p v, o p v → o' p v) (hq : Quad o p ws) : Quad o' p ws := by
  obtain ⟨a, b, c, d, va, vb, vc, vd, ha, hb, hc, hd, hp, hws⟩ := hq
  exact ⟨a, b, c, d, va, vb, vc, vd, h _ _ ha, h _ _ hb, h _ _ hc, h _ _ hd, hp, hws⟩

lemma forall₂_imp (hvs : List.Forall₂ g ps vs) (h : ∀ p ∈ ps, ∀ v, g p v → g' p v) : List.Forall₂ g' ps vs := by
  induction hvs with
  | nil => exact .nil
  | cons hv _ ih =>
    obtain ⟨hhead, htail⟩ := forall_mem_cons.1 h
    exact .cons (hhead _ hv) (ih htail)

lemma forall₂_mem (hvs : List.Forall₂ g ps vs) (hp : p ∈ ps) : ∃ v, g p v := by
  induction hvs with
  | nil => exact absurd hp not_mem_nil
  | cons hv _ ih =>
    rcases mem_cons.1 hp with rfl | hp
    · exact ⟨_, hv⟩
    · exact ih hp

lemma Groups.imp (h : ∀ p ∈ ps, ∀ v, g p v → g' p v)
    (hq : ∀ p ∈ ps, ∀ ws, Quad o p ws → Quad o' p ws) (hvs : Groups g o ps vs) : Groups g' o' ps vs := by
  rcases hvs with ⟨rfl, rfl⟩ | ⟨init, last, vs, ws, rfl, rfl, hinit, hlast⟩
  · exact .inl ⟨rfl, rfl⟩
  · have hmem : last ∈ init ++ [last] := by simp
    refine .inr ⟨init, last, vs, ws, rfl, rfl, forall₂_imp hinit fun p hp => h p (mem_append_left _ hp), ?_⟩
    rcases hlast with ⟨v, hv, rfl⟩ | hquad
    · exact .inl ⟨v, h last hmem v hv, rfl⟩
    · exact .inr (hq last hmem ws hquad)

section
variable (h : ∀ p v, g p v → g' p v) (h' : ∀ p v, o p v → o' p v)
include h h'

lemma Compressed.imp (hc : Compressed g o n text vs) : Compressed g' o' n text vs := by
  obtain ⟨ls, lvs, rs, rvs, htext, hls, hrs, hn, hvs⟩ := hc
  exact ⟨ls, lvs, rs, rvs, htext, forall₂_imp hls fun p _ => h p,
    hrs.imp (fun p _ => h p) fun p _ ws => Quad.imp h', hn, hvs⟩

lemma Address.imp (ha : Address g o n text vs) : Address g' o' n text vs := by
  rcases ha with ⟨ps, htext, hps, hlen⟩ | ⟨k, hk, hc⟩
  · exact .inl ⟨ps, htext, hps.imp (fun p _ => h p) fun p _ ws => Quad.imp h', hlen⟩
  · exact .inr ⟨k, hk, hc.imp h h'⟩

end
end

section

def PlainPiece (p : Text) : Prop :=
  if dot ∈ p then ∀ q ∈ p.splitOn dot, q.head? = some (unit 0x30) → q.length = 1 else ∀ u ∈ p, IsHex u

def Plain (text : Text) : Prop := ∀ p ∈ text.splitOn colon, PlainPiece p

lemma Quad.splitOn {o : Text → ℕ → Prop} (ho : ∀ p v, o p v → dot ∉ p)
    (h : Quad o p ws) : dot ∈ p ∧ ∃ a b c d va vb vc vd, o a va ∧ o b vb ∧ o c vc ∧ o d vd ∧
    p.splitOn dot = [a, b, c, d] ∧ p = [dot].intercalate [a, b, c, d] ∧ ws = [256 * va + vb, 256 * vc + vd] := by
  obtain ⟨a, b, c, d, va, vb, vc, vd, ha, hb, hc, hd, rfl, rfl⟩ := h
  refine ⟨by simp [intercalate_cons_cons], a, b, c, d, va, vb, vc, vd, ha, hb, hc, hd, ?_, rfl, rfl⟩
  apply splitOn_intercalate
  · simp only [forall_mem_singleton, forall_mem_cons]
    exact ⟨ho _ _ ha, ho _ _ hb, ho _ _ hc, ho _ _ hd⟩
  · exact cons_ne_nil _ _

lemma plainPiece_of_h16 {v : ℕ} (h : H16 p v) : PlainPiece p := by
  have hdot := (laxGroup_of_h16 h).ne_nil.2
  rw [PlainPiece, if_neg hdot]
  exact h.2.2.1

lemma plainPiece_of_quad (h : Quad DecOctet p ws) : PlainPiece p := by
  obtain ⟨hdot, a, b, c, d, va, vb, vc, vd, ha, hb, hc, hd, hsplit, -⟩ :=
    h.splitOn fun p v hq => (laxOctet_of_decOctet hq).not_mem_dot
  rw [PlainPiece, if_pos hdot, hsplit]
  simp only [forall_mem_singleton, forall_mem_cons]
  exact ⟨ha.2.2.1, hb.2.2.1, hc.2.2.1, hd.2.2.1⟩

lemma h16_of_plainPiece (hp : PlainPiece p) {v : ℕ} (h : LaxGroup p v) : H16 p v := by
  have hdot := h.ne_nil.2
  rw [PlainPiece, if_neg hdot] at hp
  exact h16_of_laxGroup h hp

lemma quad_of_plainPiece (hp : PlainPiece p) (h : Quad LaxOctet p ws) : Quad DecOctet p ws := by
  obtain ⟨hdot, a, b, c, d, va, vb, vc, vd, ha, hb, hc, hd, hsplit, htext, hws⟩ :=
    h.splitOn fun p v hq => hq.not_mem_dot
  rw [PlainPiece, if_pos hdot, hsplit] at hp
  simp only [forall_mem_singleton, forall_mem_cons] at hp
  exact ⟨a, b, c, d, va, vb, vc, vd, decOctet_of_laxOctet ha hp.1, decOctet_of_laxOctet hb hp.2.1,
    decOctet_of_laxOctet hc hp.2.2.1, decOctet_of_laxOctet hd hp.2.2.2, htext, hws⟩

lemma plainPiece_of_groups (h : Groups H16 DecOctet ps vs) : ∀ p ∈ ps, PlainPiece p := by
  rcases h with ⟨rfl, -⟩ | ⟨init, last, vs, ws, rfl, -, hinit, hlast⟩
  · exact nofun
  · intro p hp
    rcases mem_append.1 hp with hp | hp
    · obtain ⟨v, hv⟩ := forall₂_mem hinit hp
      exact plainPiece_of_h16 hv
    · rw [mem_singleton.1 hp]
      rcases hlast with ⟨v, hv, -⟩ | hquad
      · exact plainPiece_of_h16 hv
      · exact plainPiece_of_quad hquad

lemma mem_pad (h : p ∈ ps) : p ∈ pad ps := by rwa [pad_of_ne_nil (ne_nil_of_mem h)]

lemma plainPiece_of_mem_pad (h : ∀ p ∈ ps, PlainPiece p) : ∀ p ∈ pad ps, PlainPiece p := by
  intro p hp
  rw [pad] at hp
  split_ifs at hp
  · rw [mem_singleton.1 hp, PlainPiece]
    exact fun u hu => absurd hu not_mem_nil
  · exact h p hp

lemma lax_of_address (h : Address H16 DecOctet n text vs) : Address LaxGroup LaxOctet n text vs :=
  h.imp (fun _ _ => laxGroup_of_h16) fun _ _ => laxOctet_of_decOctet

lemma plain_of_address (h : Address H16 DecOctet n text vs) : Plain text := by
  rcases h with ⟨ps, rfl, hps, -⟩ | ⟨k, -, ls, lvs, rs, rvs, rfl, hls, hrs, -, -⟩
  · have hlax := hps.imp (fun p _ _ => laxGroup_of_h16) fun p _ ws => Quad.imp fun _ _ => laxOctet_of_decOctet
    rw [Plain, splitOn_joinColons fun p hp => (hlax.spec.1 p hp).2]
    exact plainPiece_of_mem_pad (plainPiece_of_groups hps)
  · have hlax := hrs.imp (fun p _ _ => laxGroup_of_h16) fun p _ ws => Quad.imp fun _ _ => laxOctet_of_decOctet
    have hlax' := forall₂_imp hls fun p _ _ => laxGroup_of_h16
    rw [Plain, splitOn_compressed (fun p hp => (groups_mem hlax' hp).2.1) fun p hp => (hlax.spec.1 p hp).2]
    intro p hp
    rcases mem_append.1 hp with hp | hp
    · refine plainPiece_of_mem_pad (fun q hq => ?_) p hp
      obtain ⟨v, hv⟩ := forall₂_mem hls hq
      exact plainPiece_of_h16 hv
    · rcases mem_cons.1 hp with rfl | hp
      · exact plainPiece_of_mem_pad (fun q hq => absurd hq not_mem_nil) [] (mem_singleton.2 rfl)
      · exact plainPiece_of_mem_pad (plainPiece_of_groups hrs) p hp

lemma address_of_plain (h : Address LaxGroup LaxOctet n text vs)
    (hplain : Plain text) : Address H16 DecOctet n text vs := by
  rcases h with ⟨ps, rfl, hps, hlen⟩ | ⟨k, hk, ls, lvs, rs, rvs, rfl, hls, hrs, hn, hvs⟩
  · rw [Plain, splitOn_joinColons fun p hp => (hps.spec.1 p hp).2] at hplain
    exact .inl ⟨ps, rfl, hps.imp (fun p hp _ => h16_of_plainPiece (hplain p (mem_pad hp)))
      fun p hp _ => quad_of_plainPiece (hplain p (mem_pad hp)), hlen⟩
  · rw [Plain, splitOn_compressed (fun p hp => (groups_mem hls hp).2.1) fun p hp => (hrs.spec.1 p hp).2] at hplain
    have hleft : ∀ p ∈ ls, PlainPiece p := fun p hp => hplain p (mem_append_left _ (mem_pad hp))
    have hright : ∀ p ∈ rs, PlainPiece p := fun p hp => hplain p (mem_append_right _ (mem_cons_of_mem _ (mem_pad hp)))
    exact .inr ⟨k, hk, ls, lvs, rs, rvs, rfl, forall₂_imp hls fun p hp _ => h16_of_plainPiece (hleft p hp),
      hrs.imp (fun p hp _ => h16_of_plainPiece (hright p hp)) fun p hp _ => quad_of_plainPiece (hright p hp),
      hn, hvs⟩

end

section

def groupCount (ps : List Text) : ℕ := (ps.filter (· ≠ [])).length + if ∃ p ∈ ps, dot ∈ p then 1 else 0

lemma filter_pad (h : ∀ p ∈ ps, p ≠ []) : (pad ps).filter (· ≠ []) = ps := by
  rw [pad]
  split_ifs with hps
  · rw [hps]
    rfl
  · exact filter_eq_self.2 fun p hp => decide_eq_true (h p hp)

lemma dot_mem_pad : (∃ p ∈ pad ps, dot ∈ p) ↔ ∃ p ∈ ps, dot ∈ p := by
  rw [pad]
  split_ifs with hps
  · rw [hps]
    simp
  · rfl

lemma Compressed.pieces (h : Compressed LaxGroup LaxOctet n text vs) :
    groupCount (text.splitOn colon) = n ∧ [] ∈ text.splitOn colon := by
  obtain ⟨ls, lvs, rs, rvs, rfl, hls, hrs, rfl, -⟩ := h
  obtain ⟨hrs', hlen⟩ := hrs.spec
  have hleft : ¬∃ p ∈ ls, dot ∈ p := fun ⟨p, hp, hdot⟩ => (groups_mem hls hp).2.2 hdot
  have hdot : (∃ p ∈ pad ls ++ [] :: pad rs, dot ∈ p) ↔ ∃ p ∈ rs, dot ∈ p := by
    constructor
    · rintro ⟨p, hp, hdot⟩
      rcases mem_append.1 hp with hp | hp
      · exact absurd (dot_mem_pad.1 ⟨p, hp, hdot⟩) hleft
      · rcases mem_cons.1 hp with rfl | hp
        · exact absurd hdot not_mem_nil
        · exact dot_mem_pad.1 ⟨p, hp, hdot⟩
    · intro h
      obtain ⟨p, hp, hdot⟩ := dot_mem_pad.2 h
      exact ⟨p, mem_append_right _ (mem_cons_of_mem _ hp), hdot⟩
  rw [splitOn_compressed (fun p hp => (groups_mem hls hp).2.1) fun p hp => (hrs' p hp).2]
  refine ⟨?_, by simp⟩
  rw [groupCount, filter_append, filter_pad fun p hp => (groups_mem hls hp).1, filter_cons_of_neg (by simp),
    filter_pad fun p hp => (hrs' p hp).1, length_append, hls.length_eq]
  simp only [hdot]
  omega

lemma not_compressed_of_address {m n : ℕ} {vs ws : List ℕ}
    (h : Address LaxGroup LaxOctet m text vs) (hn : m < n) : ¬Compressed LaxGroup LaxOctet n text ws := by
  intro hc
  obtain ⟨hcount, hempty⟩ := hc.pieces
  rcases h with ⟨ps, rfl, hps, hlen⟩ | ⟨k, hk, hc'⟩
  · obtain ⟨hps', hlen'⟩ := hps.spec
    rw [splitOn_joinColons fun p hp => (hps' p hp).2, pad] at hempty
    split_ifs at hempty with hnil
    · subst hnil
      rw [hlen] at hlen'
      simp at hlen'
    · exact (hps' [] hempty).1 rfl
  · have := hc'.pieces.1
    omega

end

def ParsesAddress (host : Text) (start stop : ℕ) : Prop :=
  (∀ bytes, parseIPv6Address host start stop = .ok bytes ↔
    ∃ vs, IPv6Address (substring host start stop) vs ∧ bytes = addressOctets vs) ∧
  ∀ e, parseIPv6Address host start stop = .error e → ∃ f, e = .format f

section
variable {host : Text} {start stop : ℕ}

lemma parse_ok_iff (hle : start ≤ stop) (hstop : stop ≤ host.length) (h : ¬LoneColon host start stop)
    (bytes : List ℕ) : parseIPv6Address host start stop = .ok bytes ↔
    ∃ vs, Address LaxGroup LaxOctet 6 (substring host start stop) vs ∧ bytes = addressOctets vs := by
  have hyields := parseIPv6Address_yields hle hstop h
  rw [← lax_iff]
  cases hpieces : parsePieces ((substring host start stop).splitOn colon) with
  | none =>
    rw [hpieces] at hyields
    obtain ⟨e, -, he⟩ := hyields
    rw [he]
    exact iff_of_false nofun nofun
  | some result =>
    rw [hpieces] at hyields
    rw [show parseIPv6Address host start stop = .ok result from hyields, Except.ok.injEq, Option.some.injEq]

theorem parseIPv6Address_iff (hle : start ≤ stop) (hstop : stop ≤ host.length) :
    ParsesAddress host start stop ↔ ¬LoneColon host start stop ∧
      (∀ vs, ¬Compressed H16 DecOctet 7 (substring host start stop) vs) ∧
      ((∃ vs, Address LaxGroup LaxOctet 6 (substring host start stop) vs) → Plain (substring host start stop)) := by
  constructor
  · rintro ⟨hok, herror⟩
    have hlone : ¬LoneColon host start stop := by
      intro h
      obtain ⟨f, hf⟩ := herror _ (parseIPv6Address_loneColon hle hstop h)
      cases hf
    have hlax := parse_ok_iff hle hstop hlone
    refine ⟨hlone, ?_, ?_⟩
    · intro vs hc
      obtain ⟨ws, hws, -⟩ := (hlax _).1 ((hok _).2 ⟨vs, .inr ⟨7, le_rfl, hc⟩, rfl⟩)
      exact not_compressed_of_address hws (by decide)
        (hc.imp (fun _ _ => laxGroup_of_h16) fun _ _ => laxOctet_of_decOctet)
    · rintro ⟨vs, hvs⟩
      obtain ⟨ws, hws, -⟩ := (hok _).1 ((hlax _).2 ⟨vs, hvs, rfl⟩)
      exact plain_of_address hws
  · rintro ⟨hlone, hseven, hplain⟩
    have hlax := parse_ok_iff hle hstop hlone
    constructor
    · intro bytes
      rw [hlax]
      constructor
      · rintro ⟨vs, hvs, hbytes⟩
        rcases address_of_plain hvs (hplain ⟨vs, hvs⟩) with hfull | ⟨n, hn, hc⟩
        · exact ⟨vs, .inl hfull, hbytes⟩
        · exact ⟨vs, .inr ⟨n, by omega, hc⟩, hbytes⟩
      · rintro ⟨vs, hfull | ⟨n, hn, hc⟩, hbytes⟩
        · exact ⟨vs, lax_of_address (.inl hfull), hbytes⟩
        · have hne : n ≠ 7 := by
            rintro rfl
            exact hseven vs hc
          exact ⟨vs, lax_of_address (.inr ⟨n, by omega, hc⟩), hbytes⟩
    · intro e he
      have hyields := parseIPv6Address_yields hle hstop hlone
      cases hpieces : parsePieces ((substring host start stop).splitOn colon) with
      | none =>
        rw [hpieces] at hyields
        obtain ⟨e', hformat, he'⟩ := hyields
        rw [he] at he'
        cases he'
        exact hformat
      | some result =>
        rw [hpieces] at hyields
        rw [show parseIPv6Address host start stop = .ok result from hyields] at he
        cases he

end

lemma h16_singleton {u : CodeUnit} (h : IsHex u) : H16 [u] (hexDigitValue u.val).toNat := by
  refine ⟨le_rfl, by simp, ?_, by simp [hexValue]⟩
  intro w hw
  rwa [mem_singleton.1 hw]

theorem parseIPv6Address_iff_loopback : ParsesAddress (ascii "::1") 0 3 := by
  have hone : H16 (ascii "1") 1 := h16_singleton (by decide)
  have haddress : Address H16 DecOctet 6 (substring (ascii "::1") 0 3) [0, 0, 0, 0, 0, 0, 0, 1] :=
    .inr ⟨1, by decide, [], [], [ascii "1"], [1], by decide +kernel, .nil,
      .inr ⟨[], ascii "1", [], [1], rfl, rfl, .nil, .inl ⟨1, hone, rfl⟩⟩, rfl, rfl⟩
  apply (parseIPv6Address_iff (by decide) (by decide)).2
  refine ⟨?_, ?_, fun _ => plain_of_address haddress⟩
  · rintro ⟨-, h, -⟩
    exact absurd h (by decide +kernel)
  · intro vs hc
    exact not_compressed_of_address (lax_of_address haddress) (by decide)
      (hc.imp (fun _ _ => laxGroup_of_h16) fun _ _ => laxOctet_of_decOctet)

theorem parseIPv6Address_sevenGroups : ¬ParsesAddress (ascii "1:2:3:4:5:6:7::") 0 15 := by
  intro h
  have hdigit : List.Forall₂ H16 [ascii "1", ascii "2", ascii "3", ascii "4", ascii "5", ascii "6", ascii "7"]
      [1, 2, 3, 4, 5, 6, 7] := by
    repeat' apply List.Forall₂.cons
    any_goals exact h16_singleton (by decide)
    exact .nil
  have haddress : IPv6Address (substring (ascii "1:2:3:4:5:6:7::") 0 15) [1, 2, 3, 4, 5, 6, 7, 0] :=
    .inr ⟨7, le_rfl, _, _, [], [], by decide +kernel, hdigit, .inl ⟨rfl, rfl⟩, rfl, rfl⟩
  have hparse := (h.1 _).2 ⟨_, haddress, rfl⟩
  cases hparse

end DartSdk.Uri
