import Mathlib.Data.List.Infix
import Meduman.Model.Linking
import Meduman.Text.Hex
import Meduman.Text.Replace

/-!
# The guard on webhook addresses

* `Url`, `Env` : what the URL parser and `net.isIP` say
* `expandIPv6Hextets`, `extractIPv4MappedAddress` : the hextets of an IPv6 literal, and the IPv4
  address in one
* `isPrivateAddress`, **`assertPublicUrl`** : the addresses refused, and the check of a URL
-/

set_option autoImplicit false

namespace Meduman.Ssrf

open Linking (isSpace)

/-- What `new URL` says of an address. -/
structure Url where
  protocol : String
  hostname : String
deriving DecidableEq

structure Env where
  /-- `new URL(rawUrl)`, where it does not throw. -/
  parse : String → Option Url
  /-- `net.isIP` : 4, 6, or 0 -/
  isIP : List Char → Nat

structure BadRequestException where
  message : String
deriving DecidableEq

/-! ## Numbers in a text -/

/-- The value of a digit in a radix up to sixteen. -/
def digitValue (radix : Nat) (c : Char) : Option Nat := (Text.hexValue c).filter (· < radix)

/-- The value of the digits a text begins with. -/
def parseDigits (radix : Nat) (text : List Char) : Option Nat :=
  match ((text.map (digitValue radix)).takeWhile Option.isSome).filterMap id with
  | [] => none
  | digits => some (digits.foldl (fun n d => radix * n + d) 0)

/-- `Number.parseInt(text, radix)`, with none for `NaN`. -/
def parseInt (text : List Char) (radix : Nat) : Option Int :=
  let text := text.dropWhile isSpace
  let negative := text.head? == some '-'
  let text := if negative || text.head? == some '+' then text.tail else text
  let marked := ['0', 'x'].isPrefixOf text || ['0', 'X'].isPrefixOf text
  let text := if radix == 16 && marked then text.drop 2 else text
  (parseDigits radix text).map fun n => if negative then -(n : Int) else n

/-! ## Addresses -/

/-- The hextets of an IPv6 literal, `::` written out. -/
def expandIPv6Hextets (addr : List Char) : Option (List Int) :=
  let (headStr, tailStr) :=
    if [':', ':'] <:+: addr then
      let halves := Text.split [':', ':'] addr
      (halves[0]?.getD [], halves[1]?)
    else (addr, none)
  let head := if headStr.isEmpty then [] else Text.split [':'] headStr
  let tail := match tailStr with
    | some tailStr => if tailStr.isEmpty then [] else Text.split [':'] tailStr
    | none => []
  if 8 < head.length + tail.length then none
  else
    let zeros := List.replicate (8 - (head.length + tail.length)) ['0']
    let groups := head ++ zeros ++ tail
    if groups.length ≠ 8 then none
    else groups.mapM fun g => parseInt (if g.isEmpty then ['0'] else g) 16

/-- The IPv4 address in an IPv4-mapped IPv6 literal, as a dotted quad. -/
def extractIPv4MappedAddress (addr : List Char) : Option (List Char) := do
  let hextets ← expandIPv6Hextets addr
  let isMapped := (hextets.take 5).all (· == 0) && hextets[5]? == some 0xffff
  if !isMapped then failure
  let last32 := BitVec.ofInt 32 (hextets[6]?.getD 0) <<< 16 ||| BitVec.ofInt 32 (hextets[7]?.getD 0)
  let b0 := (last32 >>> 24) &&& 0xff
  let b1 := (last32 >>> 16) &&& 0xff
  let b2 := (last32 >>> 8) &&& 0xff
  let b3 := last32 &&& 0xff
  return ['.'].intercalate ([b0, b1, b2, b3].map fun b => Nat.toDigits 10 b.toNat)

/-- `isPrivateAddress` of an address that is not IPv6. -/
def isPrivateIPv4 (addr : List Char) : Bool :=
  let parts := (Text.split ['.'] addr).map fun n => parseInt n 10
  -- a comparison with `undefined` or `NaN` is false
  let o0 := parts[0]?.join
  let o1 := parts[1]?.join
  if o0 == some 0 then true
  else if o0 == some 10 || o0 == some 127 then true
  else if o0 == some 169 && o1 == some 254 then true
  else if o0 == some 192 && o1 == some 168 then true
  else o0 == some 172 && o1.any fun o1 => 16 ≤ o1 && o1 ≤ 31

def toLowerCase (s : List Char) : List Char := s.map Char.toLower

def isPrivateAddress (addr : List Char) (family : Nat) : Bool :=
  if family == 6 then
    let a := toLowerCase addr
    if a == [':', ':', '1'] || ['f', 'c'].isPrefixOf a || ['f', 'd'].isPrefixOf a ||
        ['f', 'e', '8', '0'].isPrefixOf a then true
    else match extractIPv4MappedAddress a with
      | some mapped => isPrivateIPv4 mapped
      | none => false
  else isPrivateIPv4 addr

/-! ## The check -/

def localhost : List Char := "localhost".toList

/-- The host without the brackets of an IPv6 literal. -/
def stripBrackets (host : List Char) : List Char :=
  if host.head? == some '[' && host.getLast? == some ']' then host.tail.dropLast else host

/-- Refuse a URL that could point into the own network. -/
def assertPublicUrl (env : Env) (rawUrl : String) (allowHttp : Bool) :
    Except BadRequestException Unit := do
  let url ← match env.parse rawUrl with
    | some url => pure url
    | none => throw ⟨"Invalid webhook URL"⟩
  if url.protocol != "https:" && !(allowHttp && url.protocol == "http:") then
    throw ⟨"Webhook URL must use https"⟩
  let host := toLowerCase url.hostname.toList
  if host == localhost || ('.' :: localhost).isSuffixOf host then
    throw ⟨"Webhook URL host is not permitted"⟩
  let bare := stripBrackets host
  let family := env.isIP bare
  if family != 0 && isPrivateAddress bare family then
    throw ⟨"Webhook URL host is not permitted"⟩

end Meduman.Ssrf
