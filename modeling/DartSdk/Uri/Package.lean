import DartSdk.Uri.Resolve
import DartSdk.Uri.NormalizeCorrect

namespace DartSdk.Uri
open DartSdk.Convert List SimpleUri Nat

structure PackageName (name : Text) : Prop where
  chars : ∀ c ∈ name, c ≠ slash ∧ c ≠ percent ∧ c ≠ colon
  other : ∃ c ∈ name, c ≠ dot

section

lemma val_ne {u v : CodeUnit} (h : u ≠ v) : u.val ≠ v.val := fun hval => h (Fin.ext hval)

lemma or_xor_ne_zero (dots char : ℕ) : dots ||| (char ^^^ 0x2E) ≠ 0 ↔ dots ≠ 0 ∨ char ≠ 0x2E := by
  rw [Ne, or_eq_zero_iff, xor_eq_zero_iff, not_and_or]

lemma skipLoop_name {name : Text} (hcha : ∀ c ∈ name, c ≠ slash ∧ c ≠ percent ∧ c ≠ colon)
    (p rest : Text) (count : ℕ) {dots : ℕ} (hcou : name.length < count) (hoth : dots ≠ 0 ∨ ∃ c ∈ name, c ≠ dot) :
    skipLoop (p ++ (name ++ slash :: rest)) count p.length dots = some (p.length + name.length) := by
  induction name generalizing p count dots with
  | nil =>
    obtain ⟨count, rfl⟩ := Nat.exists_eq_add_of_lt hcou
    rw [length_nil, skipLoop, nil_append, codeUnitAt_head]
    have hdots : dots ≠ 0 := hoth.resolve_right (by simp)
    rw [if_pos hdots]
    rfl
  | cons c name ih =>
    obtain ⟨hc, hname⟩ := forall_mem_cons.1 hcha
    obtain ⟨count, rfl⟩ : ∃ n, count = n + 1 := exists_eq_succ_of_ne_zero (by omega)
    have hesc : ¬(c.val = 0x25 ∨ c.val = 0x3A) := by
      rw [not_or]
      exact ⟨val_ne hc.2.1, val_ne hc.2.2⟩
    have hnext : dots ||| (c.val ^^^ 0x2E) ≠ 0 ∨ ∃ d ∈ name, d ≠ dot := by
      rw [or_xor_ne_zero]
      rcases hoth with hdots | ⟨d, hd, hne⟩
      · exact .inl (.inl hdots)
      · rcases mem_cons.1 hd with rfl | hd
        · exact .inl (.inr (val_ne hne))
        · exact .inr ⟨d, hd, hne⟩
    have hsla : c.val ≠ 0x2F := val_ne hc.1
    have hskip := ih hname (p ++ [c]) count (by simpa using hcou) hnext
    rw [skipLoop, cons_append, codeUnitAt_head, if_neg hsla, if_neg hesc]
    simp only [length_append, length_singleton, append_assoc, singleton_append] at hskip
    rw [hskip, length_cons]
    congr 1
    omega

lemma PackageName.skip {name : Text} (h : PackageName name) (p rest : Text) (stop : ℕ)
    (hstop : p.length + name.length < stop) :
    skipPackageNameChars (p ++ (name ++ slash :: rest)) p.length stop = some (p.length + name.length) :=
  skipLoop_name h.chars p rest _ (by omega) (.inr h.other)

lemma PackageName.length_pos {name : Text} (h : PackageName name) : 0 < name.length := by
  obtain ⟨c, hc, -⟩ := h.other
  exact length_pos_of_mem hc

end

section

lemma removeDotStep_absolute (output : List Text) (segment : Text) :
    ∃ others, (removeDotStep ([] :: output) segment).1 = [] :: others ∧
    ((removeDotStep ([] :: output) segment).2 = false → others ≠ []) := by
  rw [removeDotStep]
  split
  · rw [if_neg (cons_ne_nil _ _)]
    split
    · exact ⟨[], rfl, nofun⟩
    · next hne =>
      cases output with
      | nil => exact absurd rfl hne
      | cons first output => exact ⟨_, rfl, nofun⟩
  split
  · exact ⟨output, rfl, nofun⟩
  · exact ⟨output ++ [segment], rfl, fun _ => by simp⟩

lemma removeDotLoop_absolute (rest output : List Text) (appendSlash : Bool)
    (h : appendSlash = false → rest = [] → output ≠ []) :
    ∃ others, (removeDotLoop rest ([] :: output) appendSlash).1 = [] :: others ∧
    ((removeDotLoop rest ([] :: output) appendSlash).2 = false → others ≠ []) := by
  induction rest generalizing output appendSlash with
  | nil => exact ⟨output, rfl, fun hsla => h hsla rfl⟩
  | cons segment rest ih =>
    obtain ⟨others, hout, hsla⟩ := removeDotStep_absolute output segment
    rw [removeDotLoop]
    dsimp only
    rw [hout]
    exact ih others _ fun hfal _ => hsla hfal

lemma joined_cons_nil {others : List Text} (h : others ≠ []) : ∃ t, joined ([] :: others) = slash :: t := by
  obtain ⟨first, rest, rfl⟩ := exists_cons_of_ne_nil h
  exact ⟨joined (first :: rest), by rw [joined, joined, intercalate_cons_cons]; rfl⟩

lemma removeDotSegments_absolute (path : Text) : ∃ t, removeDotSegments (slash :: path) = slash :: t := by
  rw [removeDotSegments]
  split
  · have hne : segments path ≠ [] := splitOnP_ne_nil _ _
    obtain ⟨others, hout, hsla⟩ := removeDotLoop_absolute (segments path) [] false fun _ h => absurd h hne
    have hstart : removeDotLoop (segments (slash :: path)) [] false = removeDotLoop (segments path) [[]] false := by rfl
    dsimp only
    rw [hstart, hout]
    split
    · exact joined_cons_nil (by simp)
    · next hfal => exact joined_cons_nil (hsla (by simpa using hfal))
  · exact ⟨path, rfl⟩

end

section

lemma lastSlash_absolute (base : Text) (start : ℕ) : ∃ k, lastSlash (slash :: base) start = some k := by
  induction start with
  | zero => exact ⟨0, if_pos rfl⟩
  | succ start ih =>
    rw [lastSlash]
    split
    · exact ⟨_, rfl⟩
    · exact ih

lemma mergePaths_absolute (base reference : Text) : ∃ t, mergePaths (slash :: base) reference = slash :: t := by
  obtain ⟨k, hk⟩ := lastSlash_absolute base (slash :: base).length
  rw [mergePaths]
  rw [hk]
  exact ⟨_, rfl⟩

end

section
variable {name rest : Text}

lemma startsWith_slash {path : Text} (h : startsWith path [slash] 0) : ∃ t, path = slash :: t := by
  rw [startsWith, drop_zero] at h
  cases path with
  | nil => cases h
  | cons c t =>
    rw [List.isPrefixOf, Bool.and_eq_true, beq_iff_eq] at h
    exact ⟨t, by rw [← h.1]⟩

section
variable {u : GeneralUri} (hscheme : u.scheme = ascii "package") (hhost : u.host = none)
  (hname : PackageName name) (hpath : u.path = name ++ slash :: rest)

include hscheme hhost hname hpath

lemma GeneralUri.resolvePath_package (path : Text) : ∃ tail, u.resolvePath path = name ++ slash :: tail := by
  have hpac : u.isPackage ∧ ¬u.hasAuthority := by
    rw [isPackage, hasAuthority, hscheme, hhost]
    decide
  have hstop : u.packageNameEnd u.path = some name.length := by
    have hskip := hname.skip [] rest u.path.length (by rw [hpath]; simp)
    rw [packageNameEnd, if_pos hpac]
    rw [← hpath] at hskip
    simpa using hskip
  obtain ⟨n, hn⟩ := exists_eq_succ_of_ne_zero hname.length_pos.ne'
  have hsub : substring u.path 0 (n + 1) = name := by
    rw [substring, drop_zero, hpath, ← succ_eq_add_one, ← hn, take_left]
  have hdrop : u.path.drop name.length = slash :: rest := by rw [hpath, drop_left]
  rw [resolvePath, hstop, hn]
  dsimp only
  rw [hsub, hdrop]
  split
  · next habs =>
    obtain ⟨t, rfl⟩ := startsWith_slash habs
    obtain ⟨tail, htail⟩ := removeDotSegments_absolute t
    exact ⟨tail, by rw [htail]⟩
  · obtain ⟨t, ht⟩ := mergePaths_absolute rest path
    obtain ⟨tail, htail⟩ := removeDotSegments_absolute t
    exact ⟨tail, by rw [ht, htail]⟩

lemma GeneralUri.resolveUri_package {reference : View} (hrscheme : reference.scheme = []) (hrhost : reference.host = none) :
    ∃ result tail, u.resolveUri reference = .ok result ∧ result.scheme = ascii "package" ∧
    result.host = none ∧ result.path = name ++ slash :: tail := by
  rw [resolveUri, if_neg (by rw [hrscheme]; exact fun h => h rfl), hrhost]
  dsimp only
  split
  · exact ⟨_, rest, rfl, hscheme, hhost, hpath⟩
  · obtain ⟨tail, htail⟩ := resolvePath_package hscheme hhost hname hpath reference.path
    exact ⟨_, tail, rfl, hscheme, hhost, htail⟩

end
end

namespace SimpleUri

structure WellFormed (s : SimpleUri) : Prop where
  scheme_lt : s.schemeEnd < s.pathStart
  path_le : s.pathStart ≤ s.queryStart
  query_le : s.queryStart ≤ s.fragmentStart
  fragment_le : s.fragmentStart ≤ s.uri.length

structure InPackage (s : SimpleUri) (pre name : Text) : Prop where
  uri : ∃ t, s.uri = pre ++ (name ++ slash :: t)
  pathStart : s.pathStart = pre.length
  queryStart : pre.length + name.length < s.queryStart

section
variable {pre name rest post : Text} {s : SimpleUri}

lemma InPackage.path (h : s.InPackage pre name) : ∃ tail, s.path = name ++ slash :: tail := by
  obtain ⟨t, ht⟩ := h.uri
  obtain ⟨n, hn⟩ := Nat.exists_eq_add_of_lt h.queryStart
  refine ⟨t.take n, ?_⟩
  rw [SimpleUri.path, substring, ht, h.pathStart, hn, Nat.add_assoc pre.length, Nat.add_assoc pre.length,
    take_length_add_append, drop_left, add_assoc, take_length_add_append]
  rfl

lemma WellFormed.split (hs : s.WellFormed) (hpath : s.path = name ++ slash :: rest) :
    ∃ pre post, s.uri = pre ++ (name ++ slash :: (rest ++ post)) ∧ s.pathStart = pre.length ∧
    s.queryStart = pre.length + name.length + 1 + rest.length := by
  have hle : s.pathStart ≤ s.uri.length := hs.path_le.trans (hs.query_le.trans hs.fragment_le)
  have hle' : s.queryStart ≤ s.uri.length := hs.query_le.trans hs.fragment_le
  have hlength : (s.uri.take s.pathStart).length = s.pathStart := by rw [length_take, min_eq_left hle]
  have hmid : s.uri.take s.queryStart = s.uri.take s.pathStart ++ (name ++ slash :: rest) := by
    rw [← hpath, path, substring, ← min_eq_left hs.path_le, ← take_take, min_eq_left hs.path_le, take_append_drop]
  refine ⟨s.uri.take s.pathStart, s.uri.drop s.queryStart, ?_, hlength.symm, ?_⟩
  · have hall := take_append_drop s.queryStart s.uri
    rw [hmid, append_assoc, append_assoc] at hall
    exact hall.symm
  · have hlen := congrArg List.length hmid
    rw [length_take] at hlen
    simp only [length_append, length_cons] at hlen
    omega

lemma take_package (pre name t : Text) (n : ℕ) :
    (pre ++ (name ++ slash :: t)).take (pre.length + name.length + 1 + n) = pre ++ (name ++ slash :: t.take n) := by
  rw [add_assoc pre.length, add_assoc pre.length, take_length_add_append, add_assoc,
    take_length_add_append, add_comm 1 n, take_succ_cons]

lemma take_name (pre name t : Text) : (pre ++ (name ++ t)).take (pre.length + name.length) = pre ++ name := by
  rw [take_length_add_append, take_left]

lemma backSegments_le (t : Text) : 3 * backSegments t ≤ t.length := by
  fun_induction backSegments t with
  | case1 a b c rest h ih =>
    simp only [length_cons]
    omega
  | case2 => omega
  | case3 => omega

lemma baseLoop_slash {uri : Text} {start : ℕ} (hsla : codeUnitAt uri start = 0x2F) (stop : ℕ)
    (hstop : start < stop) (insert : Bool) (backCount : ℕ) :
    ∃ baseEnd left, baseLoop uri start stop insert backCount = (baseEnd, true, left) ∧
    start ≤ baseEnd ∧ baseEnd < stop := by
  induction stop generalizing insert backCount with
  | zero => omega
  | succ stop ih =>
    have hdone : baseLoop uri start start true (backCount - 1) = (start, true, backCount - 1) := by
      cases start with
      | zero => rfl
      | succ start => rw [baseLoop, if_neg (lt_irrefl _)]
    rw [baseLoop, if_pos hstop]
    split
    · split
      · exact ⟨stop, 0, rfl, by omega, by omega⟩
      · rcases Nat.lt_succ_iff_lt_or_eq.1 hstop with hlt | heq
        · obtain ⟨baseEnd, left, h, hle, hlt'⟩ := ih hlt true (backCount - 1)
          exact ⟨baseEnd, left, h, hle, by omega⟩
        · subst heq
          exact ⟨start, _, hdone, le_rfl, lt_succ_self _⟩
    · next hne =>
      have hlt : start < stop := by
        rcases Nat.lt_succ_iff_lt_or_eq.1 hstop with hlt | heq
        · exact hlt
        · exact absurd (heq ▸ hsla) hne
      obtain ⟨baseEnd, left, h, hle, hlt'⟩ := ih hlt insert backCount
      exact ⟨baseEnd, left, h, hle, by omega⟩

lemma mergePath_inPackage {base ref : SimpleUri} (hb : base.WellFormed) (hr : ref.WellFormed)
    (hpac : base.isScheme "package") (hauth : ¬base.hasAuthority) (hname : PackageName name)
    (huri : base.uri = pre ++ (name ++ slash :: (rest ++ post))) (hpath : base.pathStart = pre.length)
    (hquery : base.queryStart = pre.length + name.length + 1 + rest.length) :
    (base.mergePath ref).InPackage pre name := by
  have hstop : base.packageNameEnd = some (pre.length + name.length) := by
    rw [packageNameEnd, if_pos ⟨hpac, hauth⟩, huri, hpath]
    exact hname.skip pre (rest ++ post) _ (by omega)
  have htake (n : ℕ) := take_package pre name (rest ++ post) n
  rw [← huri] at htake
  obtain ⟨k, hk⟩ := Nat.exists_eq_add_of_le (hquery ▸ hb.query_le)
  have hfra : base.uri.take base.fragmentStart = pre ++ (name ++ slash :: (rest ++ post).take (rest.length + k)) := by
    rw [hk, add_assoc, htake]
  rw [mergePath]
  split
  · -- An empty path: the path of the base is kept.
    split
    · refine ⟨⟨(rest ++ post).take rest.length ++ ref.uri.drop ref.queryStart, ?_⟩, hpath, ?_⟩
      · dsimp only
        rw [hquery, htake, append_assoc, append_assoc, cons_append]
      · dsimp only
        omega
    · split
      · refine ⟨⟨(rest ++ post).take (rest.length + k) ++ ref.uri.drop ref.fragmentStart, ?_⟩, hpath, ?_⟩
        · dsimp only
          rw [hfra, append_assoc, append_assoc, cons_append]
        · dsimp only
          omega
      · rw [removeFragment]
        split
        · exact ⟨⟨_, hfra⟩, hpath, by dsimp only; omega⟩
        · exact ⟨⟨_, huri⟩, hpath, by omega⟩
  · next hempty =>
    have hlt : ref.pathStart < ref.queryStart := by
      rw [hasEmptyPath, decide_eq_true_iff] at hempty
      have := hr.path_le
      omega
    split
    · -- An absolute path is put behind the package name.
      next habs =>
      rw [hasAbsolutePath, startsWith] at habs
      obtain ⟨t, ht⟩ := startsWith_slash habs
      have hpos : 0 < pre.length + name.length := by
        have := hname.length_pos
        omega
      rw [hstop]
      dsimp only
      rw [if_pos hpos]
      refine ⟨⟨t, ?_⟩, hpath, ?_⟩
      · dsimp only
        rw [huri, take_name, ht, append_assoc]
      · dsimp only
        omega
    · rw [if_neg (fun h => hauth h.2), mergedUri, hstop]
      dsimp only
      have hsla : codeUnitAt base.uri (pre.length + name.length) = 0x2F := by
        rw [huri, ← append_assoc, ← length_append, codeUnitAt_head]
        decide
      obtain ⟨baseEnd, left, hloop, hle, hend⟩ := baseLoop_slash hsla base.queryStart (by omega) false
        (backSegments (substring ref.uri ref.pathStart ref.queryStart))
      have hscheme : base.hasScheme := by
        rw [isScheme, Bool.and_eq_true, decide_eq_true_iff] at hpac
        rw [hasScheme, hpac.1]
        decide
      have hback : ref.pathStart + 3 * backSegments (substring ref.uri ref.pathStart ref.queryStart) ≤
          ref.queryStart := by
        have hback := backSegments_le (substring ref.uri ref.pathStart ref.queryStart)
        rw [substring, length_drop, length_take] at hback
        rw [substring]
        omega
      rw [hloop]
      dsimp only
      simp only [hscheme, not_true_eq_false, false_and, and_false, if_false, if_true]
      generalize ref.pathStart + 3 * backSegments (substring ref.uri ref.pathStart ref.queryStart) = refStart at hback ⊢
      refine ⟨?_, hpath, ?_⟩
      · dsimp only
        rcases hle.lt_or_eq with hlt | heq
        · obtain ⟨n, rfl⟩ := Nat.exists_eq_add_of_lt hlt
          refine ⟨(rest ++ post).take n ++ ([slash] ++ ref.uri.drop refStart), ?_⟩
          rw [Nat.add_right_comm, htake, append_assoc, append_assoc, append_assoc, cons_append]
        · refine ⟨ref.uri.drop refStart, ?_⟩
          rw [← heq, huri, take_name, append_assoc, append_assoc]
          rfl
      · dsimp only [length_singleton]
        omega

lemma mergePath_schemeEnd (base ref : SimpleUri) :
    (base.mergePath ref).schemeEnd = base.schemeEnd ∧ (base.mergePath ref).hostStart = base.hostStart := by
  rw [mergePath]
  split
  · split
    · exact ⟨rfl, rfl⟩
    split
    · exact ⟨rfl, rfl⟩
    · rw [removeFragment]
      split <;> exact ⟨rfl, rfl⟩
  split
  · exact ⟨rfl, rfl⟩
  split
  · exact ⟨rfl, rfl⟩
  · exact ⟨rfl, rfl⟩

end
end SimpleUri

namespace AnyUri

def scheme (u : AnyUri) : Text := u.view.scheme

def hasAuthority (u : AnyUri) : Bool := u.view.host.isSome

def path (u : AnyUri) : Text := u.view.path

def WellFormed : AnyUri → Prop
  | simple uri => uri.WellFormed
  | general _ => True

end AnyUri

section
variable {s : SimpleUri}

lemma SimpleUri.WellFormed.scheme_length (hs : s.WellFormed) : s.scheme.length = s.schemeEnd.toNat := by
  have := hs.scheme_lt
  have := hs.path_le
  have := hs.query_le
  have := hs.fragment_le
  rw [scheme]
  split
  · rw [Int.toNat_of_nonpos ‹_›]
    rfl
  · rw [substring, drop_zero, length_take]
    omega

lemma SimpleUri.WellFormed.isScheme_package (hs : s.WellFormed) (h : s.scheme = ascii "package") :
    s.isScheme "package" := by
  have hlength := hs.scheme_length
  rw [h] at hlength
  have hsev : s.schemeEnd.toNat = 7 := hlength.symm
  have hend : s.schemeEnd = 7 := by omega
  rw [scheme, if_neg (by omega), hsev, substring] at h
  rw [isScheme, hend, startsWith, ← h, isPrefixOf_iff_prefix.2]
  · decide
  · exact take_prefix 7 s.uri

lemma SimpleUri.hasAuthority_of_view (h : s.view.host.isSome = false) : s.hasAuthority = false := by
  rw [view] at h
  split at h
  · cases h
  · next hauth => exact Bool.eq_false_iff.2 hauth

lemma SimpleUri.scheme_congr {t : SimpleUri} {pre x y : Text} (hend : t.schemeEnd = s.schemeEnd)
    (hlt : s.schemeEnd < pre.length) (hs : s.uri = pre ++ x) (ht : t.uri = pre ++ y) : t.scheme = s.scheme := by
  have hle : s.schemeEnd.toNat ≤ pre.length := by omega
  rw [scheme, scheme, hend, substring, substring, hs, ht, take_append_of_le_length hle, take_append_of_le_length hle]

end

theorem package_containment {base reference : AnyUri} (name rest : Text) (hb : base.WellFormed)
    (hr : reference.WellFormed) (hscheme : base.scheme = ascii "package")
    (hauth : base.hasAuthority = false) (hname : PackageName name)
    (hpath : base.path = name ++ slash :: rest) (hrscheme : reference.scheme = [])
    (hrauth : reference.hasAuthority = false) :
    ∃ result tail, base.resolveUri reference = .ok result ∧ result.scheme = ascii "package" ∧
      result.hasAuthority = false ∧ result.path = name ++ slash :: tail := by
  have hrhost : reference.view.host = none := by
    rw [AnyUri.hasAuthority, Option.isSome_eq_false_iff, Option.isNone_iff_eq_none] at hrauth
    exact hrauth
  cases base with
  | general u =>
    have hhost : u.host = none := by
      rw [AnyUri.hasAuthority, AnyUri.view, GeneralUri.view, Option.isSome_map] at hauth
      rwa [Option.isSome_eq_false_iff, Option.isNone_iff_eq_none] at hauth
    obtain ⟨result, tail, hresult, h⟩ :=
      GeneralUri.resolveUri_package hscheme hhost hname hpath hrscheme hrhost
    refine ⟨.general result, tail, ?_, h.1, ?_, h.2.2⟩
    · rw [AnyUri.resolveUri, hresult]
      rfl
    · rw [AnyUri.hasAuthority, AnyUri.view, GeneralUri.view, h.2.1]
      rfl
  | simple s =>
    have hnone := hasAuthority_of_view hauth
    cases reference with
    | general r =>
      have hport : s.port = .ok none := by
        rw [port, hasPort]
        rw [hasAuthority] at hnone
        rw [hnone]
        rfl
      have hgeneral : s.toNonSimple = .ok ⟨s.scheme, s.userInfo, none, none, s.path,
          if s.hasQuery then some s.query else none, if s.hasFragment then some s.fragment else none⟩ := by
        rw [toNonSimple, hport, hnone]
        rfl
      obtain ⟨result, tail, hresult, h⟩ :=
        GeneralUri.resolveUri_package (u := ⟨s.scheme, s.userInfo, none, none, s.path,
          if s.hasQuery then some s.query else none, if s.hasFragment then some s.fragment else none⟩)
          hscheme rfl hname hpath hrscheme hrhost
      refine ⟨.general result, tail, ?_, h.1, ?_, h.2.2⟩
      · rw [AnyUri.view] at hresult
        rw [AnyUri.resolveUri, hgeneral]
        change (GeneralUri.resolveUri _ r.view >>= fun result => .ok (AnyUri.general result)) = _
        rw [hresult]
        rfl
      · rw [AnyUri.hasAuthority, AnyUri.view, GeneralUri.view, h.2.1]
        rfl
    | simple r =>
      have hrnone := hasAuthority_of_view hrauth
      have hrscheme' : r.hasScheme = false := by
        have hlength := SimpleUri.WellFormed.scheme_length hr
        have hempty : r.scheme = [] := hrscheme
        rw [hempty, length_nil] at hlength
        rw [hasScheme, decide_eq_false_iff_not]
        omega
      obtain ⟨pre, post, huri, hstart, hquery⟩ := SimpleUri.WellFormed.split hb hpath
      have hin := mergePath_inPackage hb hr (SimpleUri.WellFormed.isScheme_package hb hscheme)
        (by rw [hnone]; exact Bool.false_ne_true) hname huri hstart hquery
      obtain ⟨hend, hhost⟩ := mergePath_schemeEnd s r
      obtain ⟨tail, htail⟩ := hin.path
      obtain ⟨t, ht⟩ := hin.uri
      have hlt : s.schemeEnd < pre.length := hstart ▸ hb.scheme_lt
      refine ⟨.simple (s.mergePath r), tail, ?_, ?_, ?_, htail⟩
      · rw [AnyUri.resolveUri, simpleMerge, hrscheme', hrnone]
        rfl
      · exact (scheme_congr hend hlt huri ht).trans hscheme
      · have hauthority : (s.mergePath r).hasAuthority = false := by
          rw [hasAuthority, hhost]
          exact hnone
        rw [AnyUri.hasAuthority, AnyUri.view, view, hauthority]
        rfl

lemma packageName_foo : PackageName (ascii "foo") := by
  refine ⟨?_, unit 0x66, mem_cons_self, by decide⟩
  refine forall_mem_cons.2 ⟨⟨by decide, by decide, by decide⟩, ?_⟩
  refine forall_mem_cons.2 ⟨⟨by decide, by decide, by decide⟩, ?_⟩
  exact forall_mem_singleton.2 ⟨by decide, by decide, by decide⟩

theorem package_containment_back :
    ∃ result tail, AnyUri.resolveUri (.simple ⟨ascii "package:foo/a/b", 7, 0, 0, 8, 15, 15⟩)
        (.simple ⟨ascii "../../../c?d", -1, 0, 0, 0, 10, 12⟩) = .ok result ∧
      result.scheme = ascii "package" ∧ result.hasAuthority = false ∧ result.path = ascii "foo" ++ slash :: tail :=
  package_containment (ascii "foo") (ascii "a/b") ⟨by decide, by decide, by decide, by decide⟩
    ⟨by decide, by decide, by decide, by decide⟩ (by decide) (by decide) packageName_foo (by decide)
    (by decide) (by decide)

end DartSdk.Uri
