import JsonShape.Unicode.Category

/-!
# Break classes

The classes by which a text is cut into what is seen as one character, into words and into
sentences. A character of no listed class is in the class of the others, which has no name here.

* `graphemeBreaks`, `wordBreaks` and `sentenceBreaks` list the classes of the three divisions.
-/

namespace JsonShape

namespace Unicode

/-- The Hangul syllables without a final consonant: every 28th one. -/
def openSyllables : Listed :=
  ⟨["lv"], [], "xz4 1" :: List.replicate 398 "r 1"⟩

/-- The Hangul syllables with a final consonant: 27 behind each one without. -/
def closedSyllables : Listed :=
  ⟨["lvt"], [], "xz5 r" :: List.replicate 398 "1 r"⟩

/-- The classes for the division into what is seen as one character. -/
def graphemeBreaks : List Listed := openSyllables :: closedSyllables :: [
  ⟨["control", "cn"], ["Cc"],
    ["a 1 2 1 4f 1 12m 1 3jl 1 1ks 1 2 2 o 7 1d g 17yn 1 6o c ab8 g qxs 4 43z 8 h405 w 2o 3k ",
     "6o 2s0"]⟩,
  ⟨["cr"], [],
    ["d 1"]⟩,
  ⟨["extend", "ex"], ["Mn", "Me"],
    ["1xa 1 o 1 9y 1 o 1 2u 1 o 1 6i 1 i 2 2v 1 o 1 3b 1 f 1 2mt 1 ye 1 36p 2 14z2 2 3vi 1 o 1 ",
     "9k 1 c 1 6p 1 ow 1 10dw 1 8 5 6tk 5 gx7k 2o"]⟩,
  ⟨["l"], [],
    ["3cw 2o u0w t"]⟩,
  ⟨["lf"], [],
    ["a 1"]⟩,
  ⟨["prepend", "pp"], [],
    ["16o 6 5z 1 1d 1 ao 2 28 1 vf 1 1f8u 1 f 1 6s 2 1h7 1 1 1 6w 1 21 6 jg 1 cb 1"]⟩,
  ⟨["regionalindicator", "ri"], [],
    ["2qcm q"]⟩,
  ⟨["spacingmark", "sm"], ["Mc"],
    ["1xa 1 o 1 9y 1 o 1 2u 1 o 1 6i 1 i 2 2v 1 o 1 3b 1 f 1 2b 1 3j 1 af 2 b 1 15 3 2 7 l 1 3 ",
     "6 2 1 a 3 1xg 1 1 2 5s 1 454 2 o5n 1 1 1 kow 1 o 1 9k 1 c 1 6p 1 a8 2 em 1 10dw 1 8 5"]⟩,
  ⟨["t"], [],
    ["3hk 2g 132j 1d"]⟩,
  ⟨["v"], [],
    ["3fk 20 1348 n"]⟩,
  ⟨["zwj"], [],
    ["6bx 1"]⟩]

/-- The classes for the division into words. -/
def wordBreaks : List Listed := [
  ⟨["aletter", "le"], ["Lu", "Ll", "Lt", "Lm", "Lo", "Nl"],
    ["jm 4 c 6 6 2 5 7 1 1 1 h gq 3 1 1 17 1 1x r 4 5 1l9 1c 1 2 c 7 1m 2 1 1 1 5 1 o 1 1 1 a ",
     "1 2 9 1 2 5 1 1 l 4 80 17 k 1 g 6 4 4 3 1 3 2 7 3 4 d c 1 1dd 1g z 1 4 1 ab u 2 5 b 18 4 ",
     "q 2e 1h 2a 1 1zi 1g 270 2 p 9 7 5 2 3 6 2e 6 3 1 2i 1 4 6o g e8 534 1s g74 1e0 f 9 2 2v ",
     "2 gl 5 1 a a 5 2p n 3 1 3 1e 1 1 3 2 2 5 2 1 1 1 o 3 3h 1 fc4 a6 2 2y 1v 1 1 a 1 d 1 5 1 ",
     "1 1 2 1 2 1 a t2 1m 4m8 r 11 7 hix 4qg 8 ye 16 9 6w7 4 1 7 1 2 1 83 f 1 t 3 2 1 e 4 8 b0 ",
     "cac q 6 q 6 q 2uu wyo w 37e 6 66 2 4g2 e 5rl 2e7 f2 15u 3t7 5 38g"]⟩,
  ⟨["cr"], [],
    ["d 1"]⟩,
  ⟨["doublequote", "dq"], [],
    ["y 1"]⟩,
  ⟨["extend"], ["Mn", "Mc", "Me"],
    ["6bw 1 185t 2 1c9n 5 gx7k 2o"]⟩,
  ⟨["extendnumlet", "ex"], ["Pc"],
    ["6cv 1"]⟩,
  ⟨["format", "fo"], ["Cf"],
    ["6bv 3 jhn6 2o"]⟩,
  ⟨["hebrewletter", "hl"], [],
    ["15c r 4 4 1cfe 1 1 a 1 d 1 5 1 1 1 2 1 2 1 a"]⟩,
  ⟨["katakana", "ka"], [],
    ["9ip 5 2t 2 3 2j 1 4 6o g 5s 1b 1 2g 14b2 1k ytu 4 1 7 1 2 1 1 7z 3 1e 1 e 4"]⟩,
  ⟨["lf"], [],
    ["a 1"]⟩,
  ⟨["midletter", "ml"], [],
    ["1m 1 3g 1 jz 1 d3 1 44 1 56a 1 17u3 1 1t 1 5g 1"]⟩,
  ⟨["midnum", "mn"], [],
    ["18 1 e 1 n6 1 ei 1 3m 2 2m 1 az 1 4sr 1 17t7 1 3 1 1n 1 3 1 53 1 e 1"]⟩,
  ⟨["midnumlet", "mb"], [],
    ["1a 1 6ax 2 a 1 17vx 1 50 1 6 1"]⟩,
  ⟨["newline", "nl"], [],
    ["b 2 3c 1 68y 2"]⟩,
  ⟨["numeric", "nu"], ["Nd"],
    ["19n 1"]⟩,
  ⟨["regionalindicator", "ri"], [],
    ["2qcm q"]⟩,
  ⟨["singlequote", "sq"], [],
    ["13 1"]⟩,
  ⟨["wsegspace"], ["Zs"],
    ["4g 1 67a 1 13 1"]⟩,
  ⟨["zwj"], [],
    ["6bx 1"]⟩]

/-- The classes for the division into sentences. -/
def sentenceBreaks : List Listed := [
  ⟨["aterm", "at"], [],
    ["1a 1 6b9 1 17vx 1 57 1"]⟩,
  ⟨["cr"], [],
    ["d 1"]⟩,
  ⟨["close", "cl"], ["Ps", "Pe", "Pi", "Pf"],
    ["y 1 4 1 7qr 6 1b3 2 4 3 2 1 2i5m 3"]⟩,
  ⟨["extend", "ex"], ["Mn", "Mc", "Me"],
    ["6bw 2 185s 2 i9hc 2o"]⟩,
  ⟨["format", "fo"], ["Cf"],
    ["6bw 2 jhn6 2o"]⟩,
  ⟨["lf"], [],
    ["a 1"]⟩,
  ⟨["lower", "lo"], ["Ll"],
    ["4q 1 f 1 dx 9 7 2 u 5 45 1 2mt 17 1 4 2ek 1r d 1 y 11 j5 1 d 1 g d 5v g nk q 1hu 2 o4e 2 ",
     "5u 1 3l 3 3 2 o2 4 9 1 i6u 1 2 3 1 16 1 9 16r9 1q"]⟩,
  ⟨["numeric", "nu"], ["Nd"],
    ["19n 2"]⟩,
  ⟨["oletter", "le"], ["Lm", "Lo", "Nl"],
    ["4q 1 f 1 dx 9 7 2 u 5 45 1 hk 1 258 17 1 4 2a8 17 2 3 30 1r d 1 y 11 j5 1 d 1 g d 5f w ",
     "264 2 o4e 2 5u 1 3l 3 3 2 o2 4 9 1 gms 2 1k0 1 2 3 1 16 1 9 16r9 1q"]⟩,
  ⟨["scontinue", "sc"], [],
    ["18 2 c 1 10i 1 4u 2 dm 1 361 1 5 1 1l6 2 358 1 14pa 2 1 1 t 2 t 2 3 1 2 1 a 1 4o 2 c 1 ",
     "21 1"]⟩,
  ⟨["sterm", "st"], [],
    ["x 1 t 1 11l 1 43 3 50 1 17 3 6u 1 1p 1 1 1 3 2 85 2 1d0 2 ly 1 4 2 lh 1 5i 2 5o 1 5 1 8q ",
     "2 9u 4 4u 2 2 2 t 2 58 2 1t 2 qk 2 9 3 2qs 1 d 1 m 2 bx 1 n3w 1 7i 2 6b 1 3 1 am 2 2e 2 ",
     "2n 1 48 2 43 3 40 2 6x 1 ga2 2 4p 1 t 1 1t 1 25w 2 zh 5 18 4 59 2 39 4 3j 3 3l 2 6 1 g 2 ",
     "2g 2 1 2 30 1 bl 2 ad 2 5 f 2x 2 6x 3 ed 1 1 1 6z 2 2f 2 bo 2 j8 2 22 2 euh 2 3p 1 1t 2 ",
     "b 1 nn 1 feu 1 5wo 1"]⟩,
  ⟨["sep", "se"], [],
    ["3p 1 68y 2"]⟩,
  ⟨["sp"], ["Zs"],
    ["9 1 1 2"]⟩,
  ⟨["upper", "up"], ["Lu", "Lt"],
    ["5n4 17 2 3 ww g na q 2ixs q 6 q 6 q"]⟩]

end Unicode

end JsonShape
