import JsonShape.Unicode.Runs

/-!
# Scripts

The script of every code point, as runs over the whole range of code points, and the names by which
a script may be called.
-/

namespace JsonShape

namespace Unicode

/-- The runs of the scripts, by their codes of four letters. -/
def scriptRuns : Runs := Runs.decodeWidth 4 [
  "1tZyyyqLatn6ZyyyqLatn1bZyyy1LatnfZyyy1Latn5ZyyynLatn1ZyyyvLatn1ZyyychLatn13Zyyy5Latn5Zyyy",
  "2BopokZyyy34Zinh4Grek1Zyyy3Grek2Zzzz4Grek1Zyyy1Grek4Zzzz1Grek1Zyyy1Grek1Zyyy3Grek1Zzzz1Grek",
  "1ZzzzkGrek1Zzzz1rGrekeCoptgGrek3pCyrl2Zinh4pCyrl1Zzzz12Armn2Zzzz1eArmn2Zzzz3Armn1Zzzz1jHebr",
  "8ZzzzrHebr4Zzzz6HebrbZzzz5Arab1Zyyy6Arab1ZyyyeArab1Zyyy3Arab1ZyyywArab1ZyyyaArabbZinhqArab",
  "1Zinh30Arab1ZyyyyArabeSyrc1Zzzz1oSyrc2Zzzz3Syrc1cArab1eThaaeZzzz1nNkoo2Zzzz3Nkoo1aSamr2Zzzz",
  "fSamr1ZzzzsMand2Zzzz1Mand1ZzzzbSyrc5ZzzzvArab1Zzzz2Arab6Zzzz22Arab1ZyyytArab29Deva4ZinhfDeva",
  "2ZyyyqDeva4Beng1Zzzz8Beng2Zzzz2Beng2ZzzzmBeng1Zzzz7Beng1Zzzz1Beng3Zzzz4Beng2Zzzz9Beng2Zzzz",
  "2Beng2Zzzz4Beng8Zzzz1Beng4Zzzz2Beng1Zzzz5Beng2ZzzzpBeng2Zzzz3Guru1Zzzz6Guru4Zzzz2Guru2Zzzz",
  "mGuru1Zzzz7Guru1Zzzz2Guru1Zzzz2Guru1Zzzz2Guru2Zzzz1Guru1Zzzz5Guru4Zzzz2Guru2Zzzz3Guru3Zzzz",
  "1Guru7Zzzz4Guru1Zzzz1Guru7ZzzzhGuruaZzzz3Gujr1Zzzz9Gujr1Zzzz3Gujr1ZzzzmGujr1Zzzz7Gujr1Zzzz",
  "2Gujr1Zzzz5Gujr2ZzzzaGujr1Zzzz3Gujr1Zzzz3Gujr2Zzzz1GujrfZzzz4Gujr2ZzzzcGujr7Zzzz7Gujr1Zzzz",
  "3Orya1Zzzz8Orya2Zzzz2Orya2ZzzzmOrya1Zzzz7Orya1Zzzz2Orya1Zzzz5Orya2Zzzz9Orya2Zzzz2Orya2Zzzz",
  "3Orya7Zzzz3Orya4Zzzz2Orya1Zzzz5Orya2ZzzziOryaaZzzz2Taml1Zzzz6Taml3Zzzz3Taml1Zzzz4Taml3Zzzz",
  "2Taml1Zzzz1Taml1Zzzz2Taml3Zzzz2Taml3Zzzz3Taml3ZzzzcTaml4Zzzz5Taml3Zzzz3Taml1Zzzz4Taml2Zzzz",
  "1Taml6Zzzz1TamleZzzzlTaml5ZzzzdTelu1Zzzz3Telu1ZzzznTelu1ZzzzgTelu2Zzzz9Telu1Zzzz3Telu1Zzzz",
  "4Telu7Zzzz2Telu1Zzzz3Telu2Zzzz1Telu2Zzzz4Telu2ZzzzaTelu7Zzzz9TeludKnda1Zzzz3Knda1ZzzznKnda",
  "1ZzzzaKnda1Zzzz5Knda2Zzzz9Knda1Zzzz3Knda1Zzzz4Knda7Zzzz2Knda6Zzzz2Knda1Zzzz4Knda2ZzzzaKnda",
  "1Zzzz3KndacZzzzdMlym1Zzzz3Mlym1Zzzz1fMlym1Zzzz3Mlym1Zzzz6Mlym4ZzzzgMlym2ZzzzqMlym1Zzzz3Sinh",
  "1ZzzziSinh3ZzzzoSinh1Zzzz9Sinh1Zzzz1Sinh2Zzzz7Sinh3Zzzz1Sinh4Zzzz6Sinh1Zzzz1Sinh1Zzzz8Sinh",
  "6ZzzzaSinh2Zzzz3SinhcZzzz1mThai4Zzzz1ZyyysThai11Zzzz2Laoo1Zzzz1Laoo1Zzzz5Laoo1ZzzzoLaoo1Zzzz",
  "1Laoo1ZzzznLaoo2Zzzz5Laoo1Zzzz1Laoo1Zzzz7Laoo1ZzzzaLaoo2Zzzz4LaoowZzzz20Tibt1Zzzz10Tibt4Zzzz",
  "13Tibt1Zzzz10Tibt1ZzzzfTibt1Zzzz7Tibt4Zyyy2Tibt11Zzzz4gMymr12Geor1Zzzz1Geor5Zzzz1Geor2Zzzz",
  "17Geor1Zyyy4Geor74Hang21Ethi1Zzzz4Ethi2Zzzz7Ethi1Zzzz1Ethi1Zzzz4Ethi2Zzzz15Ethi1Zzzz4Ethi",
  "2ZzzzxEthi1Zzzz4Ethi2Zzzz7Ethi1Zzzz1Ethi1Zzzz4Ethi2ZzzzfEthi1Zzzz1lEthi1Zzzz4Ethi2Zzzz1vEthi",
  "2ZzzzwEthi3ZzzzqEthi6Zzzz2eCher2Zzzz6Cher2ZzzzhsCanstOgam3Zzzz23Runr3ZyyybRunr7ZzzzmTglg",
  "9Zzzz1TglglHano2Zyyy9ZzzzkBuhdcZzzzdTagb1Zzzz3Tagb1Zzzz2TagbcZzzz2mKhmr2ZzzzaKhmr6ZzzzaKhmr",
  "6Zzzz2Mong2Zyyy1Mong1ZyyykMong6Zzzz2hMong7Zzzz17Mong5Zzzz1yCansaZzzzvLimb1ZzzzcLimb4Zzzz",
  "cLimb4Zzzz1Limb3ZzzzcLimbuTale2Zzzz5TalebZzzz18Talu4ZzzzqTalu6ZzzzbTalu3Zzzz2TaluwKhmrsBugi",
  "2Zzzz2Bugi1rLana1ZzzztLana2ZzzzbLana6ZzzzaLana6ZzzzeLana2ZzzzvZinh1dZzzz25Bali3Zzzz1bBali",
  "1Zzzz1sSund1gBatk8Zzzz4Batk1kLepc3ZzzzfLepc3Zzzz3Lepc1cOlck9Cyrl7Zzzz17Geor2Zzzz3Geor8Sund",
  "8Zzzz3Zinh1ZyyydZinh1Zyyy7Zinh4Zyyy1Zinh6Zyyy1Zinh3Zyyy2Zinh1Zyyy5Zzzz12Latn5Grek1Cyrl1dLatn",
  "5Grek4Latn5GrekdLatn1Cyrl1yLatn1Grek1sZinh74LatnmGrek2Zzzz6Grek2Zzzz12Grek2Zzzz6Grek2Zzzz",
  "8Grek1Zzzz1Grek1Zzzz1Grek1Zzzz1Grek1ZzzzvGrek2Zzzz1hGrek1ZzzzfGrek1ZzzzeGrek2Zzzz6Grek1Zzzz",
  "jGrek2Zzzz3Grek1Zzzz9Grek1ZzzzcZyyy2Zinh2fZyyy1ZzzzbZyyy1Latn2ZzzzbZyyy1LatnfZyyy1ZzzzdLatn",
  "3ZzzzxZyyyfZzzzxZinhfZzzz12Zyyy1Grek3Zyyy2Latn6Zyyy1LatnrZyyy1LatnhZyyy15Latn3Zyyy4Zzzz",
  "ifZyyypZzzzbZyyylZzzzpsZyyy74BraihgZyyy2ZzzzwZyyy1Zzzz2xZyyy2oGlagwLatn38Copt5Zzzz7Copt",
  "12Geor1Zzzz1Geor5Zzzz1Geor2Zzzz1kTfng7Zzzz2TfngeZzzz1TfngnEthi9Zzzz7Ethi1Zzzz7Ethi1Zzzz7Ethi",
  "1Zzzz7Ethi1Zzzz7Ethi1Zzzz7Ethi1Zzzz7Ethi1Zzzz7Ethi1ZzzzwCyrl2mZyyyyZzzzqHani1Zzzz2hHanicZzzz",
  "5yHaniqZzzzcZyyy4Zzzz5Zyyy1Hani1Zyyy1HanipZyyy9Hani4Zinh2Hang8Zyyy4Hani4Zyyy1Zzzz2eHira2Zzzz",
  "2Zinh2Zyyy3Hira1Zyyy2iKana2Zyyy3Kana5Zzzz17Bopo1Zzzz2mHang1ZzzzgZyyywBopo10ZyyycZzzzgKana",
  "vHang1Zzzz1sZyyyvHang29Zyyy1bKana1Zyyy2gKana4oZyyy534Hani1sZyyyg74HaniwdYiii3Zzzz1jYiii9Zzzz",
  "1cLisu8cVaiikZzzz2oCyrl2gBamu8ZzzzyZyyy2uLatn3Zyyy1sLatn5Zzzz2Latn1Zzzz1Latn1Zzzz5LatnoZzzz",
  "eLatn19Sylo3ZzzzaZyyy6Zzzz1kPhag8Zzzz1ySaur8ZzzzcSaur6ZzzzwDeva1aKali1Zyyy1Kali10RjngbZzzz",
  "1RjngtHang3Zzzz26Java1Zzzz1ZyyyaJava4Zzzz2JavavMymr1Zzzz1jCham9ZzzzeCham2ZzzzaCham2Zzzz4Cham",
  "wMymr1vTavtoZzzz5TavtnMteiaZzzz6Ethi2Zzzz6Ethi2Zzzz6Ethi9Zzzz7Ethi1Zzzz7Ethi1Zzzz17Latn1Zyyy",
  "9Latn1Grek4Latn2Zyyy4Zzzz28Cher1aMtei2ZzzzaMtei6Zzzz8mcHangcZzzznHang4Zzzz1dHang6isZzzz",
  "a6Hani2Zzzz2yHani12Zzzz7LatncZzzz5Armn5ZzzzqHebr1Zzzz5Hebr1Zzzz1Hebr1Zzzz2Hebr1Zzzz2Hebr",
  "1ZzzzaHebr37ArabgZzzza3Arab2Zyyy28Arab2Zzzz1iArab7Zzzz1ArabwZzzzgArabgZinhaZyyy6ZzzzeZinh",
  "2CyrlzZyyy1ZzzzjZyyy1Zzzz4Zyyy4Zzzz5Arab1Zzzz3rArab2Zzzz1Zyyy1ZzzzwZyyyqLatn6ZyyyqLatnbZyyy",
  "aKana1Zyyy19Kana2ZyyyvHang3Zzzz6Hang2Zzzz6Hang2Zzzz6Hang2Zzzz3Hang3Zzzz7Zyyy1Zzzz7ZyyyaZzzz",
  "5Zyyy2ZzzzcLinb1ZzzzqLinb1ZzzzjLinb1Zzzz2Linb1ZzzzfLinb2ZzzzeLinbyZzzz3fLinb5Zzzz3Zyyy4Zzzz",
  "19Zyyy3Zzzz9Zyyy27Grek1ZzzzdZyyy3Zzzz1Grek1bZzzz19Zyyy1Zinh3mZzzztLyci3Zzzz1dCarifZzzz1Zinh",
  "rZyyy4Zzzz10Ital9Zzzz3ItalrGoth5Zzzz17Perm5ZzzzuUgar1Zzzz1Ugar10Xpeo4ZzzzeXpeo16Zzzz28Dsrt",
  "1cShawuOsma2ZzzzaOsma6Zzzz10Osge4Zzzz10Osge4Zzzz14Elba8Zzzz1gAghbbZzzz1AghbbVith1ZzzzfVith",
  "1Zzzz7Vith1Zzzz2Vith1ZzzzbVith1ZzzzfVith1Zzzz7Vith1Zzzz2Vith1vZzzz8nLina9ZzzzmLinaaZzzz8Lina",
  "oZzzz6Latn1Zzzz16Latn1Zzzz9Latn1xZzzz6Cprt2Zzzz1Cprt1Zzzz18Cprt1Zzzz2Cprt3Zzzz1Cprt2Zzzz",
  "1CprtmArmi1Zzzz9ArmiwPalmvNbat8Zzzz9Nbat1cZzzzjHatr1Zzzz2Hatr5Zzzz5HatrsPhnx3Zzzz1PhnxqLydi",
  "5Zzzz1Lydi1sZzzzwMerooMerc4ZzzzkMerc2Zzzz1aMerc4Khar1Zzzz2Khar5Zzzz8Khar1Zzzz3Khar1ZzzztKhar",
  "2Zzzz3Khar4ZzzzaKhar7Zzzz9Khar7ZzzzwSarbwNarbwZzzz13Mani4ZzzzcMani9Zzzz1iAvst3Zzzz7AvstmPrti",
  "2Zzzz8PrtijPhli5Zzzz8PhliiPhlp7Zzzz4PhlpcZzzz7Phlp28Zzzz21Orkh1jZzzz1fHungdZzzz1fHung7Zzzz",
  "6Hung14Rohg8ZzzzaRohg86ZzzzvArab1Zzzz16Yezi1Zzzz3Yezi2Zzzz2Yezi23Zzzz3Arab14Sogo8Zzzz16Sogd",
  "mZzzzqOugr12ZzzzsChrskZzzznElym9Zzzz26Brah4Zzzz10Brah9Zzzz1Brah1vKthiaZzzz1Kthi2ZzzzpSora",
  "7ZzzzaSora6Zzzz1hCakm1ZzzziCakm8Zzzz13Mahj9Zzzz2oShrd1ZzzzkSinhbZzzziKhoj1Zzzz1bKhoj1qZzzz",
  "7Mult1Zzzz1Mult1Zzzz4Mult1ZzzzfMult1ZzzzbMult6Zzzz1nSind5ZzzzaSind6Zzzz4Gran1Zzzz8Gran2Zzzz",
  "2Gran2ZzzzmGran1Zzzz7Gran1Zzzz2Gran1Zzzz5Gran1Zzzz1Zinh9Gran2Zzzz2Gran2Zzzz3Gran2Zzzz1Gran",
  "6Zzzz1Gran5Zzzz7Gran2Zzzz7Gran3Zzzz5Gran3vZzzz2kNewa1Zzzz5NewauZzzz20Tirh8ZzzzaTirh4mZzzz",
  "1iSidd2Zzzz12SiddyZzzz1xModibZzzzaModi6ZzzzdMongjZzzz1mTakr6ZzzzaTakr1iZzzzrAhom2ZzzzfAhom",
  "4ZzzznAhom55Zzzz1oDogr2sZzzz2bWaracZzzz1Wara7Diak2Zzzz1Diak2Zzzz8Diak1Zzzz2Diak1ZzzzuDiak",
  "1Zzzz2Diak2ZzzzcDiak9ZzzzaDiak1yZzzz8Nand2Zzzz1aNand2ZzzzbNandrZzzz20Zanb8Zzzz2bSoyodZzzz",
  "gCans1lPauc7ZzzzaDeva6uZzzz9Bhks1Zzzz19Bhks1ZzzzeBhksaZzzztBhks3ZzzzwMarc2ZzzzmMarc1Zzzz",
  "eMarc21Zzzz7Gonm1Zzzz2Gonm1Zzzz18Gonm3Zzzz1Gonm1Zzzz2Gonm1Zzzz9Gonm8ZzzzaGonm6Zzzz6Gong1Zzzz",
  "2Gong1Zzzz11Gong1Zzzz2Gong1Zzzz6Gong7ZzzzaGong8mZzzzpMaka7ZzzzhKawi1Zzzz15Kawi3ZzzzsKawi",
  "2eZzzz1LisufZzzz1eTamldZzzz1TamlpmXsux2uZzzz33Xsux1Zzzz5XsuxbZzzz5gXsux218Zzzz2rCpmndZzzz",
  "uuEgyp33eZzzzg7Hluw6ntZzzzftBamu7ZzzzvMroo1ZzzzaMroo4Zzzz2Mroo27Tnsa1ZzzzaTnsa6ZzzzuBass",
  "2Zzzz6BassaZzzz1yHmngaZzzzaHmng1Zzzz7Hmng1ZzzzlHmng5ZzzzjHmngj4Zzzz2jMedf2tZzzz23Plrd4Zzzz",
  "1lPlrd7ZzzzhPlrd1sZzzz1Tang1Nshu2Hani1KitsbZzzz2HanieZzzz4qgTang8ZzzzlcTangd2Kits16Zzzz9Tang",
  "6w7Zzzz4Kana1Zzzz7Kana1Zzzz2Kana1Zzzz1Kana7zHira3KanafZzzz1HiratZzzz3Hira2Zzzz1KanaeZzzz",
  "4Kana8Zzzzb0Nshu1s4Zzzz2zDupl5ZzzzdDupl3Zzzz9Dupl7ZzzzaDupl2Zzzz4Dupl4Zyyy3mkZzzz1aZinh2Zzzz",
  "nZinh9Zzzz38Zyyy1oZzzz6uZyyyaZzzz13Zyyy2Zzzz1qZyyy3ZinhhZyyy8Zinh2Zyyy7ZinhuZyyy4Zinh1pZyyy",
  "lZzzz1yGrek3eZzzzkZyyycZzzzkZyyycZzzz2fZyyy9ZzzzpZyyy3rZzzz2dZyyy1Zzzz1zZyyy1Zzzz2Zyyy2Zzzz",
  "1Zyyy2Zzzz2Zyyy2Zzzz4Zyyy1ZzzzcZyyy1Zzzz1Zyyy1Zzzz7Zyyy1Zzzz1tZyyy1Zzzz4Zyyy2Zzzz8Zyyy1Zzzz",
  "7Zyyy1ZzzzsZyyy1Zzzz4Zyyy1Zzzz5Zyyy1Zzzz1Zyyy3Zzzz7Zyyy1Zzzz9gZyyy2Zzzz84Zyyy2Zzzz1eZyyy",
  "i4SgnwfZzzz5Sgnw1ZzzzfSgnwuoZzzzvLatn6Zzzz6Latn5xZzzz7Glag1ZzzzhGlag2Zzzz7Glag1Zzzz2Glag",
  "1Zzzz5Glag5Zzzz1qCyrlxZzzz1Cyrl34Zzzz19Hmnp3ZzzzeHmnp2ZzzzaHmnp4Zzzz2Hmnp8wZzzzvTotohZzzz",
  "1mWcho5Zzzz1WchocwZzzz16NagmkmZzzz7Ethi1Zzzz4Ethi1Zzzz2Ethi1ZzzzfEthi1Zzzz5hMend2ZzzzgMend",
  "15Zzzz24Adlm4ZzzzaAdlm4Zzzz2AdlmltZzzz1wZyyy24Zzzz1pZyyy5eZzzz4Arab1ZzzzrArab1Zzzz2Arab1Zzzz",
  "1Arab2Zzzz1Arab1ZzzzaArab1Zzzz4Arab1Zzzz1Arab1Zzzz1Arab6Zzzz1Arab4Zzzz1Arab1Zzzz1Arab1Zzzz",
  "1Arab1Zzzz3Arab1Zzzz2Arab1Zzzz1Arab2Zzzz1Arab1Zzzz1Arab1Zzzz1Arab1Zzzz1Arab1Zzzz1Arab1Zzzz",
  "2Arab1Zzzz1Arab2Zzzz4Arab1Zzzz7Arab1Zzzz4Arab1Zzzz4Arab1Zzzz1Arab1ZzzzaArab1ZzzzhArab5Zzzz",
  "3Arab1Zzzz5Arab1ZzzzhArab1gZzzz2Arab7iZzzz18Zyyy4Zzzz2sZyyycZzzzfZyyy2ZzzzfZyyy1ZzzzfZyyy",
  "1Zzzz11ZyyyaZzzz4uZyyy1kZzzzqZyyy1Hira2ZyyydZzzz18Zyyy4Zzzz9Zyyy7Zzzz2ZyyyeZzzz6Zyyy4aZzzz",
  "rcZyyy4ZzzzhZyyy3ZzzzdZyyy3Zzzz3bZyyy4Zzzz2nZyyy6ZzzzcZyyy4Zzzz1ZyyyfZzzzcZyyy4Zzzz1kZyyy",
  "8ZzzzaZyyy6Zzzz14Zyyy8ZzzzuZyyy2Zzzz2Zyyy26Zzzz9gZyyycZzzzeZyyy2ZzzzdZyyy3Zzzz9Zyyy7Zzzz",
  "1aZyyy1Zzzz7Zyyy8ZzzzeZyyy4Zzzz9Zyyy7Zzzz9Zyyy7Zzzz43Zyyy1Zzzz1jZyyy11ZzzzaZyyysmZzzzwyoHani",
  "wZzzz37eHani6Zzzz66Hani2Zzzz4g2HanieZzzz5rlHani2e7Zzzzf2Hani15uZzzz3t7Hani5Zzzz38gHani",
  "f975Zzzz1ZyyyuZzzz2oZyyy3kZzzz6oZinh47bkZzzz"]

/-- The code of the script of a character. -/
def script (c : Char) : String := scriptRuns.get c.toNat

/-- The scripts, each with its code and its further names. -/
def scriptNames : List (List String) := [
  ["adlm", "adlam"], ["aghb", "caucasianalbanian"], ["ahom"], ["arab", "arabic"],
  ["armi", "imperialaramaic"], ["armn", "armenian"], ["avst", "avestan"], ["bali", "balinese"],
  ["bamu", "bamum"], ["bass", "bassavah"], ["batk", "batak"], ["beng", "bengali"],
  ["bhks", "bhaiksuki"], ["bopo", "bopomofo"], ["brah", "brahmi"], ["brai", "braille"],
  ["bugi", "buginese"], ["buhd", "buhid"], ["cakm", "chakma"], ["cans", "canadianaboriginal"],
  ["cari", "carian"], ["cham"], ["cher", "cherokee"], ["chrs", "chorasmian"],
  ["copt", "coptic", "qaac"], ["cpmn", "cyprominoan"], ["cprt", "cypriot"],
  ["cyrl", "cyrillic"], ["deva", "devanagari"], ["diak", "divesakuru"], ["dogr", "dogra"],
  ["dsrt", "deseret"], ["dupl", "duployan"], ["egyp", "egyptianhieroglyphs"],
  ["elba", "elbasan"], ["elym", "elymaic"], ["ethi", "ethiopic"], ["geor", "georgian"],
  ["glag", "glagolitic"], ["gong", "gunjalagondi"], ["gonm", "masaramgondi"],
  ["goth", "gothic"], ["gran", "grantha"], ["grek", "greek"], ["gujr", "gujarati"],
  ["guru", "gurmukhi"], ["hang", "hangul"], ["hani", "han"], ["hano", "hanunoo"],
  ["hatr", "hatran"], ["hebr", "hebrew"], ["hira", "hiragana"],
  ["hluw", "anatolianhieroglyphs"], ["hmng", "pahawhhmong"], ["hmnp", "nyiakengpuachuehmong"],
  [], ["hung", "oldhungarian"], ["ital", "olditalic"], ["java", "javanese"],
  ["kali", "kayahli"], ["kana", "katakana"], ["kawi"], ["khar", "kharoshthi"],
  ["khmr", "khmer"], ["khoj", "khojki"], ["kits", "khitansmallscript"], ["knda", "kannada"],
  ["kthi", "kaithi"], ["lana", "taitham"], ["laoo", "lao"], ["latn", "latin"],
  ["lepc", "lepcha"], ["limb", "limbu"], ["lina", "lineara"], ["linb", "linearb"], ["lisu"],
  ["lyci", "lycian"], ["lydi", "lydian"], ["mahj", "mahajani"], ["maka", "makasar"],
  ["mand", "mandaic"], ["mani", "manichaean"], ["marc", "marchen"], ["medf", "medefaidrin"],
  ["mend", "mendekikakui"], ["merc", "meroiticcursive"], ["mero", "meroitichieroglyphs"],
  ["mlym", "malayalam"], ["modi"], ["mong", "mongolian"], ["mroo", "mro"],
  ["mtei", "meeteimayek"], ["mult", "multani"], ["mymr", "myanmar"], ["nagm", "nagmundari"],
  ["nand", "nandinagari"], ["narb", "oldnortharabian"], ["nbat", "nabataean"], ["newa"],
  ["nkoo", "nko"], ["nshu", "nushu"], ["ogam", "ogham"], ["olck", "olchiki"],
  ["orkh", "oldturkic"], ["orya", "oriya"], ["osge", "osage"], ["osma", "osmanya"],
  ["ougr", "olduyghur"], ["palm", "palmyrene"], ["pauc", "paucinhau"], ["perm", "oldpermic"],
  ["phag", "phagspa"], ["phli", "inscriptionalpahlavi"], ["phlp", "psalterpahlavi"],
  ["phnx", "phoenician"], ["plrd", "miao"], ["prti", "inscriptionalparthian"],
  ["rjng", "rejang"], ["rohg", "hanifirohingya"], ["runr", "runic"], ["samr", "samaritan"],
  ["sarb", "oldsoutharabian"], ["saur", "saurashtra"], ["sgnw", "signwriting"],
  ["shaw", "shavian"], ["shrd", "sharada"], ["sidd", "siddham"], ["sind", "khudawadi"],
  ["sinh", "sinhala"], ["sogd", "sogdian"], ["sogo", "oldsogdian"], ["sora", "sorasompeng"],
  ["soyo", "soyombo"], ["sund", "sundanese"], ["sylo", "sylotinagri"], ["syrc", "syriac"],
  ["tagb", "tagbanwa"], ["takr", "takri"], ["tale", "taile"], ["talu", "newtailue"],
  ["taml", "tamil"], ["tang", "tangut"], ["tavt", "taiviet"], ["telu", "telugu"],
  ["tfng", "tifinagh"], ["tglg", "tagalog"], ["thaa", "thaana"], ["thai"], ["tibt", "tibetan"],
  ["tirh", "tirhuta"], ["tnsa", "tangsa"], ["toto"], ["ugar", "ugaritic"], ["vaii", "vai"],
  ["vith", "vithkuqi"], ["wara", "warangciti"], ["wcho", "wancho"], ["xpeo", "oldpersian"],
  ["xsux", "cuneiform"], ["yezi", "yezidi"], ["yiii", "yi"], ["zanb", "zanabazarsquare"],
  ["zinh", "inherited", "qaai"], ["zyyy", "common"]]

end Unicode

end JsonShape
