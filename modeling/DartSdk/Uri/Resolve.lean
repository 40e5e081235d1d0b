import DartSdk.Uri.Paths

namespace DartSdk.Uri
open DartSdk.Convert

def parseDigits (digits : Text) : Except FormatException ℕ :=
  match Ascii.parseDecimal Fin.val digits with
  | some value => .ok value
  | none => .error ⟨"Positive input exceeds the limit of integer", digits, none⟩

structure View where
  scheme : Text
  userInfo : Text
  /-- The value of `host`, with `none` for a reference without authority. -/
  host : Option Text
  /-- The value of `hasPort ? port : null`. -/
  port : Except FormatException (Option ℕ)
  path : Text
  query : Option Text
  fragment : Option Text

structure GeneralUri where
  scheme : Text
  userInfo : Text
  host : Option Text
  port : Option ℕ
  path : Text
  query : Option Text
  fragment : Option Text
  deriving DecidableEq, Repr

namespace GeneralUri

def hostName (host : Text) : Text :=
  if startsWith host (ascii "[") 0 then substring host 1 (host.length - 1) else host

def view (u : GeneralUri) : View :=
  ⟨u.scheme, u.userInfo, u.host.map hostName, .ok u.port, u.path, u.query, u.fragment⟩

def hasScheme (u : GeneralUri) : Bool := u.scheme ≠ []

def hasAuthority (u : GeneralUri) : Bool := u.host.isSome

def hasEmptyPath (u : GeneralUri) : Bool := u.path = []

def hasAbsolutePath (u : GeneralUri) : Bool := startsWith u.path [slash] 0

def defaultPort (scheme : Text) : ℕ :=
  if scheme = ascii "http" then 80 else if scheme = ascii "https" then 443 else 0

def makePort (port : Option ℕ) (scheme : Text) : Option ℕ :=
  if port = some (defaultPort scheme) then none else port

def isPackage (u : GeneralUri) : Bool := toLowerCase u.scheme = ascii "package"

def packageNameEnd (u : GeneralUri) (path : Text) : Option ℕ :=
  if u.isPackage ∧ ¬u.hasAuthority then skipPackageNameChars path 0 path.length else none

def resolvePath (u : GeneralUri) (path : Text) : Text :=
  match u.packageNameEnd u.path with
  | some (stop + 1) =>
    let packageName := substring u.path 0 (stop + 1)
    if startsWith path [slash] 0 then packageName ++ removeDotSegments path
    else packageName ++ removeDotSegments (mergePaths (u.path.drop packageName.length) path)
  | _ =>
    if startsWith path [slash] 0 then removeDotSegments path
    else if u.hasEmptyPath then
      if ¬u.hasAuthority then
        if ¬u.hasScheme then path else removeDotSegments path
      else removeDotSegments (slash :: path)
    else
      let mergedPath := mergePaths u.path path
      if u.hasScheme ∨ u.hasAuthority ∨ u.hasAbsolutePath then removeDotSegments mergedPath
      else normalizeRelativePath mergedPath (u.hasScheme || u.hasAuthority)

def resolveUri (u : GeneralUri) (reference : View) : Except FormatException GeneralUri :=
  if reference.scheme ≠ [] then
    match reference.host with
    | some host => do
      let port ← reference.port
      .ok ⟨reference.scheme, reference.userInfo, some host, port, removeDotSegments reference.path,
        reference.query, reference.fragment⟩
    | none =>
      .ok ⟨reference.scheme, [], none, none, removeDotSegments reference.path, reference.query, reference.fragment⟩
  else
    match reference.host with
    | some host => do
      let port ← reference.port
      .ok ⟨u.scheme, reference.userInfo, some host, makePort port u.scheme,
        removeDotSegments reference.path, reference.query, reference.fragment⟩
    | none =>
      if reference.path = [] then
        .ok ⟨u.scheme, u.userInfo, u.host, u.port, u.path, reference.query.or u.query, reference.fragment⟩
      else
        .ok ⟨u.scheme, u.userInfo, u.host, u.port, u.resolvePath reference.path, reference.query, reference.fragment⟩

end GeneralUri

structure SimpleUri where
  uri : Text
  schemeEnd : ℤ
  hostStart : ℕ
  portStart : ℕ
  pathStart : ℕ
  queryStart : ℕ
  fragmentStart : ℕ
  deriving DecidableEq, Repr

namespace SimpleUri
variable (s : SimpleUri)

def hasScheme : Bool := 0 < s.schemeEnd

def hasAuthority : Bool := 0 < s.hostStart

def hasPort : Bool := 0 < s.hostStart && s.portStart + 1 < s.pathStart

def hasQuery : Bool := s.queryStart < s.fragmentStart

def hasFragment : Bool := s.fragmentStart < s.uri.length

def isScheme (scheme : String) : Bool := s.schemeEnd = scheme.length && startsWith s.uri (ascii scheme) 0

def hasAbsolutePath : Bool := startsWith s.uri [slash] s.pathStart

def hasEmptyPath : Bool := s.pathStart = s.queryStart

def scheme : Text := if s.schemeEnd ≤ 0 then [] else substring s.uri 0 s.schemeEnd.toNat

def userInfo : Text :=
  if s.schemeEnd + 3 < s.hostStart then substring s.uri (s.schemeEnd + 3).toNat (s.hostStart - 1) else []

def host : Text := if 0 < s.hostStart then substring s.uri s.hostStart s.portStart else []

def port : Except FormatException (Option ℕ) :=
  if s.hasPort then do
    let port ← parseDigits (substring s.uri (s.portStart + 1) s.pathStart)
    .ok (some port)
  else .ok none

def path : Text := substring s.uri s.pathStart s.queryStart

def query : Text :=
  if s.queryStart < s.fragmentStart then substring s.uri (s.queryStart + 1) s.fragmentStart else []

def fragment : Text := if s.fragmentStart < s.uri.length then s.uri.drop (s.fragmentStart + 1) else []

def view : View :=
  ⟨s.scheme, s.userInfo, if s.hasAuthority then some s.host else none, s.port, s.path,
    if s.hasQuery then some s.query else none, if s.hasFragment then some s.fragment else none⟩

def isPort (port : String) : Bool :=
  s.portStart + 1 + port.length = s.pathStart && startsWith s.uri (ascii port) (s.portStart + 1)

def removeFragment : SimpleUri :=
  if s.hasFragment then { s with uri := s.uri.take s.fragmentStart } else s

def toNonSimple : Except FormatException GeneralUri := do
  let port ← s.port
  .ok ⟨s.scheme, s.userInfo, if s.hasAuthority then some s.host else none, port, s.path,
    if s.hasQuery then some s.query else none, if s.hasFragment then some s.fragment else none⟩

def packageNameEnd : Option ℕ :=
  if s.isScheme "package" ∧ ¬s.hasAuthority then skipPackageNameChars s.uri s.pathStart s.queryStart
  else none

/-- The loop that removes segments of the base path: the position it stops at, whether a slash was
seen, and the number of leading `"../"` that are left. -/
def baseLoop (baseUri : Text) (baseStart : ℕ) : ℕ → Bool → ℕ → ℕ × Bool × ℕ
  | 0, insert, backCount => (0, insert, backCount)
  | baseEnd + 1, insert, backCount =>
    if baseStart < baseEnd + 1 then
      if codeUnitAt baseUri baseEnd = 0x2F then
        if backCount = 0 then (baseEnd, true, 0) else baseLoop baseUri baseStart baseEnd true (backCount - 1)
      else baseLoop baseUri baseStart baseEnd insert backCount
    else (baseEnd + 1, insert, backCount)

def mergedUri (base ref : SimpleUri) : SimpleUri :=
  let baseStart := match base.packageNameEnd with
    | some stop => stop
    | none => base.pathStart + 3 * backSegments (base.uri.drop base.pathStart)
  let backCount := backSegments (substring ref.uri ref.pathStart ref.queryStart)
  let refStart := ref.pathStart + 3 * backCount
  let (baseEnd, insert, backCount) := baseLoop base.uri baseStart base.queryStart false backCount
  let relative := baseEnd = baseStart ∧ ¬base.hasScheme ∧ ¬base.hasAbsolutePath
  let insert := if relative then false else insert
  let refStart := if relative then refStart - backCount * 3 else refStart
  let inserted := if insert then [slash] else []
  let delta : ℤ := baseEnd - refStart + inserted.length
  ⟨base.uri.take baseEnd ++ inserted ++ ref.uri.drop refStart, base.schemeEnd, base.hostStart,
    base.portStart, base.pathStart, (ref.queryStart + delta).toNat, (ref.fragmentStart + delta).toNat⟩

def mergePath (base ref : SimpleUri) : SimpleUri :=
  if ref.hasEmptyPath then
    if ref.hasQuery then
      let delta : ℤ := base.queryStart - ref.queryStart
      ⟨base.uri.take base.queryStart ++ ref.uri.drop ref.queryStart, base.schemeEnd, base.hostStart,
        base.portStart, base.pathStart, (ref.queryStart + delta).toNat, (ref.fragmentStart + delta).toNat⟩
    else if ref.hasFragment then
      let delta : ℤ := base.fragmentStart - ref.fragmentStart
      ⟨base.uri.take base.fragmentStart ++ ref.uri.drop ref.fragmentStart, base.schemeEnd,
        base.hostStart, base.portStart, base.pathStart, base.queryStart,
        (ref.fragmentStart + delta).toNat⟩
    else base.removeFragment
  else if ref.hasAbsolutePath then
    let basePathStart : ℕ := match base.packageNameEnd with
      | some stop => if 0 < stop then stop else base.pathStart
      | none => base.pathStart
    let delta : ℤ := basePathStart - ref.pathStart
    ⟨base.uri.take basePathStart ++ ref.uri.drop ref.pathStart, base.schemeEnd, base.hostStart,
      base.portStart, base.pathStart, (ref.queryStart + delta).toNat, (ref.fragmentStart + delta).toNat⟩
  else if base.hasEmptyPath ∧ base.hasAuthority then
    let refStart := ref.pathStart + 3 * backSegments (ref.uri.drop ref.pathStart)
    let delta : ℤ := base.pathStart - refStart + 1
    ⟨base.uri.take base.pathStart ++ [slash] ++ ref.uri.drop refStart, base.schemeEnd, base.hostStart,
      base.portStart, base.pathStart, (ref.queryStart + delta).toNat, (ref.fragmentStart + delta).toNat⟩
  else mergedUri base ref

end SimpleUri

inductive AnyUri
  | simple (uri : SimpleUri)
  | general (uri : GeneralUri)
  deriving DecidableEq, Repr

namespace AnyUri

def view : AnyUri → View
  | simple uri => uri.view
  | general uri => uri.view

end AnyUri

def SimpleUri.isSimpleMerge (base ref : SimpleUri) : Bool :=
  if base.isScheme "file" then ¬ref.hasEmptyPath
  else if base.isScheme "http" then ¬ref.isPort "80"
  else if base.isScheme "https" then ¬ref.isPort "443"
  else true

def SimpleUri.simpleMerge (base ref : SimpleUri) : Except FormatException AnyUri :=
  if ref.hasScheme then .ok (.simple ref)
  else if ref.hasAuthority then
    if ¬base.hasScheme then .ok (.simple ref)
    else if base.isSimpleMerge ref then
      let delta : ℤ := base.schemeEnd + 1
      .ok (.simple ⟨base.uri.take (base.schemeEnd + 1).toNat ++ ref.uri.drop (ref.schemeEnd + 1).toNat,
        base.schemeEnd, (ref.hostStart + delta).toNat, (ref.portStart + delta).toNat,
        (ref.pathStart + delta).toNat, (ref.queryStart + delta).toNat,
        (ref.fragmentStart + delta).toNat⟩)
    else do
      let general ← base.toNonSimple
      let result ← general.resolveUri ref.view
      .ok (.general result)
  else .ok (.simple (base.mergePath ref))

def AnyUri.resolveUri : AnyUri → AnyUri → Except FormatException AnyUri
  | simple base, simple reference => base.simpleMerge reference
  | simple base, general reference => do
    let general ← base.toNonSimple
    let result ← general.resolveUri reference.view
    .ok (.general result)
  | general base, reference => do
    let result ← base.resolveUri reference.view
    .ok (.general result)

end DartSdk.Uri
