import PicX.Base.Text

/-!
# Base64 and PEM (`keys/encoding.rs`)

The two alphabets of RFC 4648 the ring writes its keys in, and the armour of a private key file.
The decoder takes a character by its low byte, stops at the first `=`, and drops what is left of
the last byte, as the source does.
-/

namespace PicX.Encoding

/-- `A` to `Z`, `a` to `z` and `0` to `9`. -/
def alphanumeric : Bytes :=
  (List.range' 65 26 ++ List.range' 97 26 ++ List.range' 48 10).map UInt8.ofNat

/-- The standard alphabet: what PEM bodies are written in. -/
def STANDARD : Bytes := alphanumeric ++ [43, 47]

/-- The URL-safe alphabet: what a JWK is written in. -/
def URL_SAFE : Bytes := alphanumeric ++ [45, 95]

example : STANDARD =
    utf8 "ABCDEFGHIJKLMNOPQRSTUVWXYZabcdefghijklmnopqrstuvwxyz0123456789+/" := by
  decide +kernel

example : URL_SAFE =
    utf8 "ABCDEFGHIJKLMNOPQRSTUVWXYZabcdefghijklmnopqrstuvwxyz0123456789-_" := by
  decide +kernel

/-- How many characters a PEM body puts on a line. -/
def PEM_WIDTH : Nat := 64

/-! ## Encoding -/

/-- Up to three bytes: one character per six bits they carry, and one for the remainder. -/
def encodeChunk (alphabet : Bytes) (pad : Bool) (chunk : Bytes) : List Char :=
  let bits := ((chunk.getD 0 0).toNat <<< 16) ||| ((chunk.getD 1 0).toNat <<< 8) |||
    (chunk.getD 2 0).toNat
  let characters := chunk.length + 1
  let sextet (index : Nat) : Nat := (bits >>> (18 - 6 * index)) &&& 0b111111
  (List.range characters).map (fun index => Char.ofNat (alphabet.getD (sextet index) 0).toNat) ++
    if pad then List.replicate (4 - characters) '=' else []

def encode (alphabet : Bytes) (pad : Bool) : Bytes → List Char
  | a :: b :: c :: rest => encodeChunk alphabet pad [a, b, c] ++ encode alphabet pad rest
  | [] => []
  | chunk => encodeChunk alphabet pad chunk

/-- The way a JWK expects it: URL-safe, and without the padding. -/
def base64url (input : Bytes) : String := String.ofList (encode URL_SAFE false input)

/-- The way a PEM body expects it: standard alphabet, padded. -/
def base64 (input : Bytes) : String := String.ofList (encode STANDARD true input)

/-- A text in lines of `width` characters, `column` of which are already on the first one. -/
def wrapped (width : Nat) : List Char → Nat → List Char
  | [], column => if column = 0 then [] else ['\n']
  | c :: cs, column =>
    if column + 1 = width then c :: '\n' :: wrapped width cs 0
    else c :: wrapped width cs (column + 1)

/-- Wraps DER key material in the PEM armour. -/
def pem (label : String) (der : Bytes) : String :=
  "-----BEGIN " ++ label ++ "-----\n" ++
    String.ofList (wrapped PEM_WIDTH (base64 der).toList 0) ++ "-----END " ++ label ++ "-----\n"

/-! ## Decoding -/

/-- The loop of the decoder: six bits a character, a byte whenever there are eight. -/
def decodeChars (alphabet : Bytes) : List Char → Nat → Nat → Bytes → Option Bytes
  | [], _, _, out => some out
  | character :: rest, accumulator, bits, out =>
    if character = '=' then some out
    else match alphabet.findIdx? (· == UInt8.ofNat character.toNat) with
      | none => none
      | some value =>
        let accumulator := ((accumulator <<< 6) % 2 ^ 32) ||| value
        let bits := bits + 6
        if 8 ≤ bits then
          decodeChars alphabet rest accumulator (bits - 8)
            (out ++ [UInt8.ofNat (accumulator >>> (bits - 8))])
        else decodeChars alphabet rest accumulator bits out

def decodeWith (input : String) (alphabet : Bytes) : Option Bytes :=
  decodeChars alphabet input.toList 0 0 []

/-- Reads what a JWK carries. -/
def fromBase64url (input : String) : Option Bytes := decodeWith input URL_SAFE

/-- Reads back what `pem` wrote, ignoring the armour and any line breaks inside it. -/
def fromPem (text : String) : Option Bytes :=
  let body := ((textLines text).filter fun line => !("-----".toList.isPrefixOf line.toList)).flatMap
    fun line => line.toList.filter fun character => !isWhitespace character
  decodeWith (String.ofList body) STANDARD

end PicX.Encoding
