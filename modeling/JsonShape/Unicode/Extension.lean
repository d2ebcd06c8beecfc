import JsonShape.Unicode.Script

/-!
# Script extensions

Some characters are written in several scripts. `scriptExtensions` lists them with the codes of
those scripts; every other character is written in its own script only.

* `hasScriptExtension` says whether a character is written in a script.
-/

namespace JsonShape

namespace Unicode

/-- Codes of scripts, and the characters that are written in exactly those. -/
def scriptExtensions : List (List String × List String) := [
  (["Grek"],
    ["n6 1 2 1 58a 2"]),
  (["Latn"],
    ["o3 d"]),
  (["Cyrl", "Perm"],
    ["w3 1"]),
  (["Cyrl", "Glag"],
    ["w4 1 2 1 88r 1 nqj 1"]),
  (["Cyrl", "Latn"],
    ["w5 2"]),
  (["Arab", "Nkoo", "Rohg", "Syrc", "Thaa", "Yezi"],
    ["170 1 e 1"]),
  (["Arab", "Syrc", "Thaa"],
    ["17g 1"]),
  (["Adlm", "Arab", "Nkoo", "Rohg", "Syrc", "Thaa", "Yezi"],
    ["17j 1"]),
  (["Adlm", "Arab", "Mand", "Mani", "Ougr", "Phlp", "Rohg", "Sogd", "Syrc"],
    ["18g 1"]),
  (["Arab", "Syrc"],
    ["18r b q 1"]),
  (["Arab", "Thaa", "Yezi"],
    ["19c a"]),
  (["Arab", "Rohg"],
    ["1ck 1"]),
  (["Beng", "Deva", "Gran", "Gujr", "Guru", "Knda", "Latn", "Mlym", "Orya", "Shrd", "Taml",
    "Telu", "Tirh"],
    ["1u9 1"]),
  (["Beng", "Deva", "Gran", "Gujr", "Guru", "Knda", "Latn", "Mlym", "Orya", "Taml", "Telu",
    "Tirh"],
    ["1ua 1"]),
  (["Beng", "Deva", "Dogr", "Gong", "Gonm", "Gran", "Gujr", "Guru", "Knda", "Mahj", "Mlym",
    "Nand", "Orya", "Sind", "Sinh", "Sylo", "Takr", "Taml", "Telu", "Tirh"],
    ["1us 1"]),
  (["Beng", "Deva", "Dogr", "Gong", "Gonm", "Gran", "Gujr", "Guru", "Knda", "Limb", "Mahj",
    "Mlym", "Nand", "Orya", "Sind", "Sinh", "Sylo", "Takr", "Taml", "Telu", "Tirh"],
    ["1ut 1"]),
  (["Deva", "Dogr", "Kthi", "Mahj"],
    ["1uu a"]),
  (["Beng", "Cakm", "Sylo"],
    ["1ye a"]),
  (["Guru", "Mult"],
    ["21y a"]),
  (["Gujr", "Khoj"],
    ["25i a"]),
  (["Gran", "Taml"],
    ["2cm e 1fyl 1 1 1 1j 2 2hf 2 1 1"]),
  (["Knda", "Nand"],
    ["2jq a"]),
  (["Cakm", "Mymr", "Tale"],
    ["37k a"]),
  (["Geor", "Latn"],
    ["3cr 1"]),
  (["Buhd", "Hano", "Tagb", "Tglg"],
    ["4l1 2"]),
  (["Mong", "Phag"],
    ["4qq 2 1 1"]),
  (["Beng", "Deva", "Gran", "Knda"],
    ["5ow 1 1 1"]),
  (["Deva"],
    ["5ox 1 2 1 6 1 2 2 2 7 2 2 1 4"]),
  (["Deva", "Gran"],
    ["5oz 1 v 1 4 2"]),
  (["Beng", "Deva"],
    ["5p1 2 1 1 8 1 8 1 2 1 7 2 rne 1"]),
  (["Deva", "Shrd"],
    ["5p3 1 1 1 2 2 2 1"]),
  (["Deva", "Knda", "Mlym", "Orya", "Taml", "Telu"],
    ["5p6 1"]),
  (["Deva", "Nand"],
    ["5pl 1"]),
  (["Beng", "Deva", "Gran", "Knda", "Nand", "Orya", "Telu", "Tirh"],
    ["5pu 1"]),
  (["Deva", "Gran", "Knda"],
    ["5pw 1"]),
  (["Beng"],
    ["5pz 1"]),
  (["Nand"],
    ["5q2 1"]),
  (["Cyrl", "Syrc"],
    ["5x4 1"]),
  (["Syrc"],
    ["5x6 1"]),
  (["Latn", "Mong"],
    ["6cv 1"]),
  (["Deva", "Gran", "Latn"],
    ["6i8 1"]),
  (["Bopo", "Hang", "Hani", "Hira", "Kana", "Yiii"],
    ["9hd 2 5 a 2 8 67 1 14rp 5"]),
  (["Bopo", "Hang", "Hani", "Hira", "Kana"],
    ["9hf 1 f 1 8 4 g 1 6 1 14p9 2"]),
  (["Hani"],
    ["9hi 1 1j 2 9c g w 10 1o 14 1k 1d f c 1f 1 2g p a 5 2o v 2a1t i 63i 2"]),
  (["Bopo", "Hani"],
    ["9ii 4"]),
  (["Hira", "Kana"],
    ["9ip 5 2r 4 3 1 2j 1 14s3 1 19 2"]),
  (["Hani", "Hira", "Kana"],
    ["9j0 2"]),
  (["Hani", "Latn"],
    ["wzk 8"]),
  (["Deva", "Dogr", "Gujr", "Guru", "Khoj", "Knda", "Kthi", "Mahj", "Mlym", "Modi", "Nand",
    "Sind", "Takr", "Tirh"],
    ["x80 3"]),
  (["Deva", "Dogr", "Gujr", "Guru", "Khoj", "Knda", "Kthi", "Mahj", "Modi", "Nand", "Sind",
    "Takr", "Tirh"],
    ["x83 3"]),
  (["Deva", "Dogr", "Gujr", "Guru", "Khoj", "Kthi", "Mahj", "Modi", "Sind", "Takr", "Tirh"],
    ["x86 4"]),
  (["Deva", "Taml"],
    ["xdf 1"]),
  (["Kali", "Latn", "Mymr"],
    ["xf2 1"]),
  (["Bugi", "Java"],
    ["xjj 1"]),
  (["Arab", "Nkoo"],
    ["1e0u 2"]),
  (["Arab", "Thaa"],
    ["1e5u 1 a 1"]),
  (["Cpmn", "Cprt", "Linb"],
    ["1erk 2"]),
  (["Cprt", "Linb"],
    ["1erm 1 1g 9"]),
  (["Cprt", "Lina", "Linb"],
    ["1err 19"]),
  (["Arab", "Copt"],
    ["1f4w s"]),
  (["Mani", "Ougr"],
    ["1gqa 1"]),
  (["Dupl"],
    ["2fts 4"])]

/-- Whether a character is written in a script, by its code. -/
def hasScriptExtension (code : String) (c : Char) : Bool :=
  match scriptExtensions.find? fun e => (Ranges.decode e.2).contains c.toNat with
  | some e => e.1.contains code
  | none => script c == code

end Unicode

end JsonShape
