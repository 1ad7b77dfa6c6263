/-
  PatternCatalog.Text.Letters — classes of characters and their case.

  Below code point 128 each class is a plain test; above, it is the table of the property
  of the same name. `isWord` adds marks, decimal digits, connectors and joiners to the
  alphabetic characters.
-/

import PatternCatalog.Text.CharSet

namespace PatternCatalog.Text

/-! ## Tables -/

/-- Code points with the property Alphabetic. -/
def alphabeticSet : CharSet := CharSet.ofText
  ["aa b5 ba c0-d6 d8-f6 f8-2c1 2c6-2d1 2e0-2e4 2ec 2ee 345 363-374 376-377 37a-37d 37f 386 388-38a 38c 38e-3a1",
   "3a3-3f5 3f7-481 48a-52f 531-556 559 560-588 5b0-5bd 5bf 5c1-5c2 5c4-5c5 5c7 5d0-5ea 5ef-5f2 610-61a 620-657",
   "659-65f 66e-6d3 6d5-6dc 6e1-6e8 6ed-6ef 6fa-6fc 6ff 710-73f 74d-7b1 7ca-7ea 7f4-7f5 7fa 800-817 81a-82c 840-858",
   "860-86a 870-887 889-88f 897 8a0-8c9 8d4-8df 8e3-8e9 8f0-93b 93d-94c 94e-950 955-963 971-983 985-98c 98f-990",
   "993-9a8 9aa-9b0 9b2 9b6-9b9 9bd-9c4 9c7-9c8 9cb-9cc 9ce 9d7 9dc-9dd 9df-9e3 9f0-9f1 9fc a01-a03 a05-a0a a0f-a10",
   "a13-a28 a2a-a30 a32-a33 a35-a36 a38-a39 a3e-a42 a47-a48 a4b-a4c a51 a59-a5c a5e a70-a75 a81-a83 a85-a8d a8f-a91",
   "a93-aa8 aaa-ab0 ab2-ab3 ab5-ab9 abd-ac5 ac7-ac9 acb-acc ad0 ae0-ae3 af9-afc b01-b03 b05-b0c b0f-b10 b13-b28",
   "b2a-b30 b32-b33 b35-b39 b3d-b44 b47-b48 b4b-b4c b56-b57 b5c-b5d b5f-b63 b71 b82-b83 b85-b8a b8e-b90 b92-b95",
   "b99-b9a b9c b9e-b9f ba3-ba4 ba8-baa bae-bb9 bbe-bc2 bc6-bc8 bca-bcc bd0 bd7 c00-c0c c0e-c10 c12-c28 c2a-c39",
   "c3d-c44 c46-c48 c4a-c4c c55-c56 c58-c5a c5c-c5d c60-c63 c80-c83 c85-c8c c8e-c90 c92-ca8 caa-cb3 cb5-cb9 cbd-cc4",
   "cc6-cc8 cca-ccc cd5-cd6 cdc-cde ce0-ce3 cf1-cf3 d00-d0c d0e-d10 d12-d3a d3d-d44 d46-d48 d4a-d4c d4e d54-d57",
   "d5f-d63 d7a-d7f d81-d83 d85-d96 d9a-db1 db3-dbb dbd dc0-dc6 dcf-dd4 dd6 dd8-ddf df2-df3 e01-e3a e40-e46 e4d",
   "e81-e82 e84 e86-e8a e8c-ea3 ea5 ea7-eb9 ebb-ebd ec0-ec4 ec6 ecd edc-edf f00 f40-f47 f49-f6c f71-f83 f88-f97",
   "f99-fbc 1000-1036 1038 103b-103f 1050-108f 109a-109d 10a0-10c5 10c7 10cd 10d0-10fa 10fc-1248 124a-124d 1250-1256",
   "1258 125a-125d 1260-1288 128a-128d 1290-12b0 12b2-12b5 12b8-12be 12c0 12c2-12c5 12c8-12d6 12d8-1310 1312-1315",
   "1318-135a 1380-138f 13a0-13f5 13f8-13fd 1401-166c 166f-167f 1681-169a 16a0-16ea 16ee-16f8 1700-1713 171f-1733",
   "1740-1753 1760-176c 176e-1770 1772-1773 1780-17b3 17b6-17c8 17d7 17dc 1820-1878 1880-18aa 18b0-18f5 1900-191e",
   "1920-192b 1930-1938 1950-196d 1970-1974 1980-19ab 19b0-19c9 1a00-1a1b 1a20-1a5e 1a61-1a74 1aa7 1abf-1ac0",
   "1acc-1ace 1b00-1b33 1b35-1b43 1b45-1b4c 1b80-1ba9 1bac-1baf 1bba-1be5 1be7-1bf1 1c00-1c36 1c4d-1c4f 1c5a-1c7d",
   "1c80-1c8a 1c90-1cba 1cbd-1cbf 1ce9-1cec 1cee-1cf3 1cf5-1cf6 1cfa 1d00-1dbf 1dd3-1df4 1e00-1f15 1f18-1f1d",
   "1f20-1f45 1f48-1f4d 1f50-1f57 1f59 1f5b 1f5d 1f5f-1f7d 1f80-1fb4 1fb6-1fbc 1fbe 1fc2-1fc4 1fc6-1fcc 1fd0-1fd3",
   "1fd6-1fdb 1fe0-1fec 1ff2-1ff4 1ff6-1ffc 2071 207f 2090-209c 2102 2107 210a-2113 2115 2119-211d 2124 2126 2128",
   "212a-212d 212f-2139 213c-213f 2145-2149 214e 2160-2188 24b6-24e9 2c00-2ce4 2ceb-2cee 2cf2-2cf3 2d00-2d25 2d27",
   "2d2d 2d30-2d67 2d6f 2d80-2d96 2da0-2da6 2da8-2dae 2db0-2db6 2db8-2dbe 2dc0-2dc6 2dc8-2dce 2dd0-2dd6 2dd8-2dde",
   "2de0-2dff 2e2f 3005-3007 3021-3029 3031-3035 3038-303c 3041-3096 309d-309f 30a1-30fa 30fc-30ff 3105-312f",
   "3131-318e 31a0-31bf 31f0-31ff 3400-4dbf 4e00-a48c a4d0-a4fd a500-a60c a610-a61f a62a-a62b a640-a66e a674-a67b",
   "a67f-a6ef a717-a71f a722-a788 a78b-a7dc a7f1-a805 a807-a827 a840-a873 a880-a8c3 a8c5 a8f2-a8f7 a8fb a8fd-a8ff",
   "a90a-a92a a930-a952 a960-a97c a980-a9b2 a9b4-a9bf a9cf a9e0-a9ef a9fa-a9fe aa00-aa36 aa40-aa4d aa60-aa76",
   "aa7a-aabe aac0 aac2 aadb-aadd aae0-aaef aaf2-aaf5 ab01-ab06 ab09-ab0e ab11-ab16 ab20-ab26 ab28-ab2e ab30-ab5a",
   "ab5c-ab69 ab70-abea ac00-d7a3 d7b0-d7c6 d7cb-d7fb f900-fa6d fa70-fad9 fb00-fb06 fb13-fb17 fb1d-fb28 fb2a-fb36",
   "fb38-fb3c fb3e fb40-fb41 fb43-fb44 fb46-fbb1 fbd3-fd3d fd50-fd8f fd92-fdc7 fdf0-fdfb fe70-fe74 fe76-fefc",
   "ff21-ff3a ff41-ff5a ff66-ffbe ffc2-ffc7 ffca-ffcf ffd2-ffd7 ffda-ffdc 10000-1000b 1000d-10026 10028-1003a",
   "1003c-1003d 1003f-1004d 10050-1005d 10080-100fa 10140-10174 10280-1029c 102a0-102d0 10300-1031f 1032d-1034a",
   "10350-1037a 10380-1039d 103a0-103c3 103c8-103cf 103d1-103d5 10400-1049d 104b0-104d3 104d8-104fb 10500-10527",
   "10530-10563 10570-1057a 1057c-1058a 1058c-10592 10594-10595 10597-105a1 105a3-105b1 105b3-105b9 105bb-105bc",
   "105c0-105f3 10600-10736 10740-10755 10760-10767 10780-10785 10787-107b0 107b2-107ba 10800-10805 10808",
   "1080a-10835 10837-10838 1083c 1083f-10855 10860-10876 10880-1089e 108e0-108f2 108f4-108f5 10900-10915",
   "10920-10939 10940-10959 10980-109b7 109be-109bf 10a00-10a03 10a05-10a06 10a0c-10a13 10a15-10a17 10a19-10a35",
   "10a60-10a7c 10a80-10a9c 10ac0-10ac7 10ac9-10ae4 10b00-10b35 10b40-10b55 10b60-10b72 10b80-10b91 10c00-10c48",
   "10c80-10cb2 10cc0-10cf2 10d00-10d27 10d4a-10d65 10d69 10d6f-10d85 10e80-10ea9 10eab-10eac 10eb0-10eb1",
   "10ec2-10ec7 10efa-10efc 10f00-10f1c 10f27 10f30-10f45 10f70-10f81 10fb0-10fc4 10fe0-10ff6 11000-11045",
   "11071-11075 11080-110b8 110c2 110d0-110e8 11100-11132 11144-11147 11150-11172 11176 11180-111bf 111c1-111c4",
   "111ce-111cf 111da 111dc 11200-11211 11213-11234 11237 1123e-11241 11280-11286 11288 1128a-1128d 1128f-1129d",
   "1129f-112a8 112b0-112e8 11300-11303 11305-1130c 1130f-11310 11313-11328 1132a-11330 11332-11333 11335-11339",
   "1133d-11344 11347-11348 1134b-1134c 11350 11357 1135d-11363 11380-11389 1138b 1138e 11390-113b5 113b7-113c0",
   "113c2 113c5 113c7-113ca 113cc-113cd 113d1 113d3 11400-11441 11443-11445 11447-1144a 1145f-11461 11480-114c1",
   "114c4-114c5 114c7 11580-115b5 115b8-115be 115d8-115dd 11600-1163e 11640 11644 11680-116b5 116b8 11700-1171a",
   "1171d-1172a 11740-11746 11800-11838 118a0-118df 118ff-11906 11909 1190c-11913 11915-11916 11918-11935",
   "11937-11938 1193b-1193c 1193f-11942 119a0-119a7 119aa-119d7 119da-119df 119e1 119e3-119e4 11a00-11a32",
   "11a35-11a3e 11a50-11a97 11a9d 11ab0-11af8 11b60-11b67 11bc0-11be0 11c00-11c08 11c0a-11c36 11c38-11c3e 11c40",
   "11c72-11c8f 11c92-11ca7 11ca9-11cb6 11d00-11d06 11d08-11d09 11d0b-11d36 11d3a 11d3c-11d3d 11d3f-11d41 11d43",
   "11d46-11d47 11d60-11d65 11d67-11d68 11d6a-11d8e 11d90-11d91 11d93-11d96 11d98 11db0-11ddb 11ee0-11ef6",
   "11f00-11f10 11f12-11f3a 11f3e-11f40 11fb0 12000-12399 12400-1246e 12480-12543 12f90-12ff0 13000-1342f",
   "13441-13446 13460-143fa 14400-14646 16100-1612e 16800-16a38 16a40-16a5e 16a70-16abe 16ad0-16aed 16b00-16b2f",
   "16b40-16b43 16b63-16b77 16b7d-16b8f 16d40-16d6c 16e40-16e7f 16ea0-16eb8 16ebb-16ed3 16f00-16f4a 16f4f-16f87",
   "16f8f-16f9f 16fe0-16fe1 16fe3 16ff0-16ff6 17000-18cd5 18cff-18d1e 18d80-18df2 1aff0-1aff3 1aff5-1affb",
   "1affd-1affe 1b000-1b122 1b132 1b150-1b152 1b155 1b164-1b167 1b170-1b2fb 1bc00-1bc6a 1bc70-1bc7c 1bc80-1bc88",
   "1bc90-1bc99 1bc9e 1d400-1d454 1d456-1d49c 1d49e-1d49f 1d4a2 1d4a5-1d4a6 1d4a9-1d4ac 1d4ae-1d4b9 1d4bb",
   "1d4bd-1d4c3 1d4c5-1d505 1d507-1d50a 1d50d-1d514 1d516-1d51c 1d51e-1d539 1d53b-1d53e 1d540-1d544 1d546",
   "1d54a-1d550 1d552-1d6a5 1d6a8-1d6c0 1d6c2-1d6da 1d6dc-1d6fa 1d6fc-1d714 1d716-1d734 1d736-1d74e 1d750-1d76e",
   "1d770-1d788 1d78a-1d7a8 1d7aa-1d7c2 1d7c4-1d7cb 1df00-1df1e 1df25-1df2a 1e000-1e006 1e008-1e018 1e01b-1e021",
   "1e023-1e024 1e026-1e02a 1e030-1e06d 1e08f 1e100-1e12c 1e137-1e13d 1e14e 1e290-1e2ad 1e2c0-1e2eb 1e4d0-1e4eb",
   "1e5d0-1e5ed 1e5f0 1e6c0-1e6de 1e6e0-1e6f5 1e6fe-1e6ff 1e7e0-1e7e6 1e7e8-1e7eb 1e7ed-1e7ee 1e7f0-1e7fe",
   "1e800-1e8c4 1e900-1e943 1e947 1e94b 1ee00-1ee03 1ee05-1ee1f 1ee21-1ee22 1ee24 1ee27 1ee29-1ee32 1ee34-1ee37",
   "1ee39 1ee3b 1ee42 1ee47 1ee49 1ee4b 1ee4d-1ee4f 1ee51-1ee52 1ee54 1ee57 1ee59 1ee5b 1ee5d 1ee5f 1ee61-1ee62",
   "1ee64 1ee67-1ee6a 1ee6c-1ee72 1ee74-1ee77 1ee79-1ee7c 1ee7e 1ee80-1ee89 1ee8b-1ee9b 1eea1-1eea3 1eea5-1eea9",
   "1eeab-1eebb 1f130-1f149 1f150-1f169 1f170-1f189 20000-2a6df 2a700-2b81d 2b820-2cead 2ceb0-2ebe0 2ebf0-2ee5d",
   "2f800-2fa1d 30000-3134a 31350-33479"]

/-- Code points of the categories Nd, Nl and No. -/
def numericSet : CharSet := CharSet.ofText
  ["b2-b3 b9 bc-be 660-669 6f0-6f9 7c0-7c9 966-96f 9e6-9ef 9f4-9f9 a66-a6f ae6-aef b66-b6f b72-b77 be6-bf2 c66-c6f",
   "c78-c7e ce6-cef d58-d5e d66-d78 de6-def e50-e59 ed0-ed9 f20-f33 1040-1049 1090-1099 1369-137c 16ee-16f0",
   "17e0-17e9 17f0-17f9 1810-1819 1946-194f 19d0-19da 1a80-1a89 1a90-1a99 1b50-1b59 1bb0-1bb9 1c40-1c49 1c50-1c59",
   "2070 2074-2079 2080-2089 2150-2182 2185-2189 2460-249b 24ea-24ff 2776-2793 2cfd 3007 3021-3029 3038-303a",
   "3192-3195 3220-3229 3248-324f 3251-325f 3280-3289 32b1-32bf a620-a629 a6e6-a6ef a830-a835 a8d0-a8d9 a900-a909",
   "a9d0-a9d9 a9f0-a9f9 aa50-aa59 abf0-abf9 ff10-ff19 10107-10133 10140-10178 1018a-1018b 102e1-102fb 10320-10323",
   "10341 1034a 103d1-103d5 104a0-104a9 10858-1085f 10879-1087f 108a7-108af 108fb-108ff 10916-1091b 109bc-109bd",
   "109c0-109cf 109d2-109ff 10a40-10a48 10a7d-10a7e 10a9d-10a9f 10aeb-10aef 10b58-10b5f 10b78-10b7f 10ba9-10baf",
   "10cfa-10cff 10d30-10d39 10d40-10d49 10e60-10e7e 10f1d-10f26 10f51-10f54 10fc5-10fcb 11052-1106f 110f0-110f9",
   "11136-1113f 111d0-111d9 111e1-111f4 112f0-112f9 11450-11459 114d0-114d9 11650-11659 116c0-116c9 116d0-116e3",
   "11730-1173b 118e0-118f2 11950-11959 11bf0-11bf9 11c50-11c6c 11d50-11d59 11da0-11da9 11de0-11de9 11f50-11f59",
   "11fc0-11fd4 12400-1246e 16130-16139 16a60-16a69 16ac0-16ac9 16b50-16b59 16b5b-16b61 16d70-16d79 16e80-16e96",
   "16ff4-16ff6 1ccf0-1ccf9 1d2c0-1d2d3 1d2e0-1d2f3 1d360-1d378 1d7ce-1d7ff 1e140-1e149 1e2f0-1e2f9 1e4f0-1e4f9",
   "1e5f1-1e5fa 1e8c7-1e8cf 1e950-1e959 1ec71-1ecab 1ecad-1ecaf 1ecb1-1ecb4 1ed01-1ed2d 1ed2f-1ed3d 1f100-1f10c",
   "1fbf0-1fbf9"]

/-- Marks, decimal digits, connectors and joiners that are not alphabetic. -/
def wordExtraSet : CharSet := CharSet.ofText
  ["300-344 346-362 483-489 591-5af 658 660-669 6df-6e0 6ea-6ec 6f0-6f9 740-74a 7c0-7c9 7eb-7f3 7fd 818-819 82d",
   "859-85b 898-89f 8ca-8d3 8e0-8e1 8ea-8ef 93c 94d 951-954 966-96f 9bc 9cd 9e6-9ef 9fe a3c a4d a66-a6f abc acd",
   "ae6-aef afd-aff b3c b4d b55 b66-b6f bcd be6-bef c3c c4d c66-c6f cbc ccd ce6-cef d3b-d3c d4d d66-d6f dca de6-def",
   "e47-e4c e4e e50-e59 eba ec8-ecc ece ed0-ed9 f18-f19 f20-f29 f35 f37 f39 f3e-f3f f84 f86-f87 fc6 1037 1039-103a",
   "1040-1049 1090-1099 135d-135f 1714-1715 1734 17b4-17b5 17c9-17d3 17dd 17e0-17e9 180b-180d 180f-1819 1939-193b",
   "1946-194f 19d0-19d9 1a60 1a75-1a7c 1a7f-1a89 1a90-1a99 1ab0-1abe 1ac1-1acb 1acf-1add 1ae0-1aeb 1b34 1b44",
   "1b50-1b59 1b6b-1b73 1baa-1bab 1bb0-1bb9 1be6 1bf2-1bf3 1c37 1c40-1c49 1c50-1c59 1cd0-1cd2 1cd4-1ce8 1ced 1cf4",
   "1cf7-1cf9 1dc0-1dd2 1df5-1dff 200c-200d 203f-2040 2054 20d0-20f0 2cef-2cf1 2d7f 302a-302f 3099-309a a620-a629",
   "a66f-a672 a67c-a67d a6f0-a6f1 a806 a82c a8c4 a8d0-a8d9 a8e0-a8f1 a900-a909 a92b-a92d a953 a9b3 a9c0 a9d0-a9d9",
   "a9f0-a9f9 aa50-aa59 aabf aac1 aaf6 abec-abed abf0-abf9 fe00-fe0f fe20-fe2f fe33-fe34 fe4d-fe4f ff10-ff19 ff3f",
   "101fd 102e0 104a0-104a9 10a38-10a3a 10a3f 10ae5-10ae6 10d30-10d39 10d40-10d49 10d6a-10d6d 10efd-10eff",
   "10f46-10f50 10f82-10f85 11046 11066-11070 1107f 110b9-110ba 110f0-110f9 11133-11134 11136-1113f 11173 111c0",
   "111c9-111cc 111d0-111d9 11235-11236 112e9-112ea 112f0-112f9 1133b-1133c 1134d 11366-1136c 11370-11374",
   "113ce-113d0 113d2 113e1-113e2 11442 11446 11450-11459 1145e 114c2-114c3 114d0-114d9 115bf-115c0 1163f",
   "11650-11659 116b6-116b7 116c0-116c9 116d0-116e3 1172b 11730-11739 11839-1183a 118e0-118e9 1193d-1193e 11943",
   "11950-11959 119e0 11a33-11a34 11a47 11a98-11a99 11bf0-11bf9 11c3f 11c50-11c59 11d42 11d44-11d45 11d50-11d59",
   "11d97 11da0-11da9 11de0-11de9 11f41-11f42 11f50-11f5a 13440 13447-13455 1612f-16139 16a60-16a69 16ac0-16ac9",
   "16af0-16af4 16b30-16b36 16b50-16b59 16d70-16d79 16fe4 1bc9d 1ccf0-1ccf9 1cf00-1cf2d 1cf30-1cf46 1d165-1d169",
   "1d16d-1d172 1d17b-1d182 1d185-1d18b 1d1aa-1d1ad 1d242-1d244 1d7ce-1d7ff 1da00-1da36 1da3b-1da6c 1da75 1da84",
   "1da9b-1da9f 1daa1-1daaf 1e130-1e136 1e140-1e149 1e2ae 1e2ec-1e2f9 1e4ec-1e4f9 1e5ee-1e5ef 1e5f1-1e5fa",
   "1e8d0-1e8d6 1e944-1e946 1e948-1e94a 1e950-1e959 1fbf0-1fbf9 e0100-e01ef"]

/-- Code points with the property ID_Start. -/
def idStartSet : CharSet := CharSet.ofText
  ["aa b5 ba c0-d6 d8-f6 f8-2c1 2c6-2d1 2e0-2e4 2ec 2ee 370-374 376-377 37a-37d 37f 386 388-38a 38c 38e-3a1 3a3-3f5",
   "3f7-481 48a-52f 531-556 559 560-588 5d0-5ea 5ef-5f2 620-64a 66e-66f 671-6d3 6d5 6e5-6e6 6ee-6ef 6fa-6fc 6ff 710",
   "712-72f 74d-7a5 7b1 7ca-7ea 7f4-7f5 7fa 800-815 81a 824 828 840-858 860-86a 870-887 889-88f 8a0-8c9 904-939 93d",
   "950 958-961 971-980 985-98c 98f-990 993-9a8 9aa-9b0 9b2 9b6-9b9 9bd 9ce 9dc-9dd 9df-9e1 9f0-9f1 9fc a05-a0a",
   "a0f-a10 a13-a28 a2a-a30 a32-a33 a35-a36 a38-a39 a59-a5c a5e a72-a74 a85-a8d a8f-a91 a93-aa8 aaa-ab0 ab2-ab3",
   "ab5-ab9 abd ad0 ae0-ae1 af9 b05-b0c b0f-b10 b13-b28 b2a-b30 b32-b33 b35-b39 b3d b5c-b5d b5f-b61 b71 b83 b85-b8a",
   "b8e-b90 b92-b95 b99-b9a b9c b9e-b9f ba3-ba4 ba8-baa bae-bb9 bd0 c05-c0c c0e-c10 c12-c28 c2a-c39 c3d c58-c5a",
   "c5c-c5d c60-c61 c80 c85-c8c c8e-c90 c92-ca8 caa-cb3 cb5-cb9 cbd cdc-cde ce0-ce1 cf1-cf2 d04-d0c d0e-d10 d12-d3a",
   "d3d d4e d54-d56 d5f-d61 d7a-d7f d85-d96 d9a-db1 db3-dbb dbd dc0-dc6 e01-e30 e32-e33 e40-e46 e81-e82 e84 e86-e8a",
   "e8c-ea3 ea5 ea7-eb0 eb2-eb3 ebd ec0-ec4 ec6 edc-edf f00 f40-f47 f49-f6c f88-f8c 1000-102a 103f 1050-1055",
   "105a-105d 1061 1065-1066 106e-1070 1075-1081 108e 10a0-10c5 10c7 10cd 10d0-10fa 10fc-1248 124a-124d 1250-1256",
   "1258 125a-125d 1260-1288 128a-128d 1290-12b0 12b2-12b5 12b8-12be 12c0 12c2-12c5 12c8-12d6 12d8-1310 1312-1315",
   "1318-135a 1380-138f 13a0-13f5 13f8-13fd 1401-166c 166f-167f 1681-169a 16a0-16ea 16ee-16f8 1700-1711 171f-1731",
   "1740-1751 1760-176c 176e-1770 1780-17b3 17d7 17dc 1820-1878 1880-18a8 18aa 18b0-18f5 1900-191e 1950-196d",
   "1970-1974 1980-19ab 19b0-19c9 1a00-1a16 1a20-1a54 1aa7 1b05-1b33 1b45-1b4c 1b83-1ba0 1bae-1baf 1bba-1be5",
   "1c00-1c23 1c4d-1c4f 1c5a-1c7d 1c80-1c8a 1c90-1cba 1cbd-1cbf 1ce9-1cec 1cee-1cf3 1cf5-1cf6 1cfa 1d00-1dbf",
   "1e00-1f15 1f18-1f1d 1f20-1f45 1f48-1f4d 1f50-1f57 1f59 1f5b 1f5d 1f5f-1f7d 1f80-1fb4 1fb6-1fbc 1fbe 1fc2-1fc4",
   "1fc6-1fcc 1fd0-1fd3 1fd6-1fdb 1fe0-1fec 1ff2-1ff4 1ff6-1ffc 2071 207f 2090-209c 2102 2107 210a-2113 2115",
   "2118-211d 2124 2126 2128 212a-2139 213c-213f 2145-2149 214e 2160-2188 2c00-2ce4 2ceb-2cee 2cf2-2cf3 2d00-2d25",
   "2d27 2d2d 2d30-2d67 2d6f 2d80-2d96 2da0-2da6 2da8-2dae 2db0-2db6 2db8-2dbe 2dc0-2dc6 2dc8-2dce 2dd0-2dd6",
   "2dd8-2dde 3005-3007 3021-3029 3031-3035 3038-303c 3041-3096 309b-309f 30a1-30fa 30fc-30ff 3105-312f 3131-318e",
   "31a0-31bf 31f0-31ff 3400-4dbf 4e00-a48c a4d0-a4fd a500-a60c a610-a61f a62a-a62b a640-a66e a67f-a69d a6a0-a6ef",
   "a717-a71f a722-a788 a78b-a7dc a7f1-a801 a803-a805 a807-a80a a80c-a822 a840-a873 a882-a8b3 a8f2-a8f7 a8fb",
   "a8fd-a8fe a90a-a925 a930-a946 a960-a97c a984-a9b2 a9cf a9e0-a9e4 a9e6-a9ef a9fa-a9fe aa00-aa28 aa40-aa42",
   "aa44-aa4b aa60-aa76 aa7a aa7e-aaaf aab1 aab5-aab6 aab9-aabd aac0 aac2 aadb-aadd aae0-aaea aaf2-aaf4 ab01-ab06",
   "ab09-ab0e ab11-ab16 ab20-ab26 ab28-ab2e ab30-ab5a ab5c-ab69 ab70-abe2 ac00-d7a3 d7b0-d7c6 d7cb-d7fb f900-fa6d",
   "fa70-fad9 fb00-fb06 fb13-fb17 fb1d fb1f-fb28 fb2a-fb36 fb38-fb3c fb3e fb40-fb41 fb43-fb44 fb46-fbb1 fbd3-fd3d",
   "fd50-fd8f fd92-fdc7 fdf0-fdfb fe70-fe74 fe76-fefc ff21-ff3a ff41-ff5a ff66-ffbe ffc2-ffc7 ffca-ffcf ffd2-ffd7",
   "ffda-ffdc 10000-1000b 1000d-10026 10028-1003a 1003c-1003d 1003f-1004d 10050-1005d 10080-100fa 10140-10174",
   "10280-1029c 102a0-102d0 10300-1031f 1032d-1034a 10350-10375 10380-1039d 103a0-103c3 103c8-103cf 103d1-103d5",
   "10400-1049d 104b0-104d3 104d8-104fb 10500-10527 10530-10563 10570-1057a 1057c-1058a 1058c-10592 10594-10595",
   "10597-105a1 105a3-105b1 105b3-105b9 105bb-105bc 105c0-105f3 10600-10736 10740-10755 10760-10767 10780-10785",
   "10787-107b0 107b2-107ba 10800-10805 10808 1080a-10835 10837-10838 1083c 1083f-10855 10860-10876 10880-1089e",
   "108e0-108f2 108f4-108f5 10900-10915 10920-10939 10940-10959 10980-109b7 109be-109bf 10a00 10a10-10a13",
   "10a15-10a17 10a19-10a35 10a60-10a7c 10a80-10a9c 10ac0-10ac7 10ac9-10ae4 10b00-10b35 10b40-10b55 10b60-10b72",
   "10b80-10b91 10c00-10c48 10c80-10cb2 10cc0-10cf2 10d00-10d23 10d4a-10d65 10d6f-10d85 10e80-10ea9 10eb0-10eb1",
   "10ec2-10ec7 10f00-10f1c 10f27 10f30-10f45 10f70-10f81 10fb0-10fc4 10fe0-10ff6 11003-11037 11071-11072 11075",
   "11083-110af 110d0-110e8 11103-11126 11144 11147 11150-11172 11176 11183-111b2 111c1-111c4 111da 111dc",
   "11200-11211 11213-1122b 1123f-11240 11280-11286 11288 1128a-1128d 1128f-1129d 1129f-112a8 112b0-112de",
   "11305-1130c 1130f-11310 11313-11328 1132a-11330 11332-11333 11335-11339 1133d 11350 1135d-11361 11380-11389",
   "1138b 1138e 11390-113b5 113b7 113d1 113d3 11400-11434 11447-1144a 1145f-11461 11480-114af 114c4-114c5 114c7",
   "11580-115ae 115d8-115db 11600-1162f 11644 11680-116aa 116b8 11700-1171a 11740-11746 11800-1182b 118a0-118df",
   "118ff-11906 11909 1190c-11913 11915-11916 11918-1192f 1193f 11941 119a0-119a7 119aa-119d0 119e1 119e3 11a00",
   "11a0b-11a32 11a3a 11a50 11a5c-11a89 11a9d 11ab0-11af8 11bc0-11be0 11c00-11c08 11c0a-11c2e 11c40 11c72-11c8f",
   "11d00-11d06 11d08-11d09 11d0b-11d30 11d46 11d60-11d65 11d67-11d68 11d6a-11d89 11d98 11db0-11ddb 11ee0-11ef2",
   "11f02 11f04-11f10 11f12-11f33 11fb0 12000-12399 12400-1246e 12480-12543 12f90-12ff0 13000-1342f 13441-13446",
   "13460-143fa 14400-14646 16100-1611d 16800-16a38 16a40-16a5e 16a70-16abe 16ad0-16aed 16b00-16b2f 16b40-16b43",
   "16b63-16b77 16b7d-16b8f 16d40-16d6c 16e40-16e7f 16ea0-16eb8 16ebb-16ed3 16f00-16f4a 16f50 16f93-16f9f",
   "16fe0-16fe1 16fe3 16ff2-16ff6 17000-18cd5 18cff-18d1e 18d80-18df2 1aff0-1aff3 1aff5-1affb 1affd-1affe",
   "1b000-1b122 1b132 1b150-1b152 1b155 1b164-1b167 1b170-1b2fb 1bc00-1bc6a 1bc70-1bc7c 1bc80-1bc88 1bc90-1bc99",
   "1d400-1d454 1d456-1d49c 1d49e-1d49f 1d4a2 1d4a5-1d4a6 1d4a9-1d4ac 1d4ae-1d4b9 1d4bb 1d4bd-1d4c3 1d4c5-1d505",
   "1d507-1d50a 1d50d-1d514 1d516-1d51c 1d51e-1d539 1d53b-1d53e 1d540-1d544 1d546 1d54a-1d550 1d552-1d6a5",
   "1d6a8-1d6c0 1d6c2-1d6da 1d6dc-1d6fa 1d6fc-1d714 1d716-1d734 1d736-1d74e 1d750-1d76e 1d770-1d788 1d78a-1d7a8",
   "1d7aa-1d7c2 1d7c4-1d7cb 1df00-1df1e 1df25-1df2a 1e030-1e06d 1e100-1e12c 1e137-1e13d 1e14e 1e290-1e2ad",
   "1e2c0-1e2eb 1e4d0-1e4eb 1e5d0-1e5ed 1e5f0 1e6c0-1e6de 1e6e0-1e6e2 1e6e4-1e6e5 1e6e7-1e6ed 1e6f0-1e6f4",
   "1e6fe-1e6ff 1e7e0-1e7e6 1e7e8-1e7eb 1e7ed-1e7ee 1e7f0-1e7fe 1e800-1e8c4 1e900-1e943 1e94b 1ee00-1ee03",
   "1ee05-1ee1f 1ee21-1ee22 1ee24 1ee27 1ee29-1ee32 1ee34-1ee37 1ee39 1ee3b 1ee42 1ee47 1ee49 1ee4b 1ee4d-1ee4f",
   "1ee51-1ee52 1ee54 1ee57 1ee59 1ee5b 1ee5d 1ee5f 1ee61-1ee62 1ee64 1ee67-1ee6a 1ee6c-1ee72 1ee74-1ee77",
   "1ee79-1ee7c 1ee7e 1ee80-1ee89 1ee8b-1ee9b 1eea1-1eea3 1eea5-1eea9 1eeab-1eebb 20000-2a6df 2a700-2b81d",
   "2b820-2cead 2ceb0-2ebe0 2ebf0-2ee5d 2f800-2fa1d 30000-3134a 31350-33479"]

/-- Code points with the property ID_Continue that are not in ID_Start. -/
def idContinueExtraSet : CharSet := CharSet.ofText
  ["b7 300-36f 387 483-487 591-5bd 5bf 5c1-5c2 5c4-5c5 5c7 610-61a 64b-669 670 6d6-6dc 6df-6e4 6e7-6e8 6ea-6ed",
   "6f0-6f9 711 730-74a 7a6-7b0 7c0-7c9 7eb-7f3 7fd 816-819 81b-823 825-827 829-82d 859-85b 897-89f 8ca-8e1 8e3-903",
   "93a-93c 93e-94f 951-957 962-963 966-96f 981-983 9bc 9be-9c4 9c7-9c8 9cb-9cd 9d7 9e2-9e3 9e6-9ef 9fe a01-a03 a3c",
   "a3e-a42 a47-a48 a4b-a4d a51 a66-a71 a75 a81-a83 abc abe-ac5 ac7-ac9 acb-acd ae2-ae3 ae6-aef afa-aff b01-b03 b3c",
   "b3e-b44 b47-b48 b4b-b4d b55-b57 b62-b63 b66-b6f b82 bbe-bc2 bc6-bc8 bca-bcd bd7 be6-bef c00-c04 c3c c3e-c44",
   "c46-c48 c4a-c4d c55-c56 c62-c63 c66-c6f c81-c83 cbc cbe-cc4 cc6-cc8 cca-ccd cd5-cd6 ce2-ce3 ce6-cef cf3 d00-d03",
   "d3b-d3c d3e-d44 d46-d48 d4a-d4d d57 d62-d63 d66-d6f d81-d83 dca dcf-dd4 dd6 dd8-ddf de6-def df2-df3 e31 e34-e3a",
   "e47-e4e e50-e59 eb1 eb4-ebc ec8-ece ed0-ed9 f18-f19 f20-f29 f35 f37 f39 f3e-f3f f71-f84 f86-f87 f8d-f97 f99-fbc",
   "fc6 102b-103e 1040-1049 1056-1059 105e-1060 1062-1064 1067-106d 1071-1074 1082-108d 108f-109d 135d-135f",
   "1369-1371 1712-1715 1732-1734 1752-1753 1772-1773 17b4-17d3 17dd 17e0-17e9 180b-180d 180f-1819 18a9 1920-192b",
   "1930-193b 1946-194f 19d0-19da 1a17-1a1b 1a55-1a5e 1a60-1a7c 1a7f-1a89 1a90-1a99 1ab0-1abd 1abf-1add 1ae0-1aeb",
   "1b00-1b04 1b34-1b44 1b50-1b59 1b6b-1b73 1b80-1b82 1ba1-1bad 1bb0-1bb9 1be6-1bf3 1c24-1c37 1c40-1c49 1c50-1c59",
   "1cd0-1cd2 1cd4-1ce8 1ced 1cf4 1cf7-1cf9 1dc0-1dff 200c-200d 203f-2040 2054 20d0-20dc 20e1 20e5-20f0 2cef-2cf1",
   "2d7f 2de0-2dff 302a-302f 3099-309a 30fb a620-a629 a66f a674-a67d a69e-a69f a6f0-a6f1 a802 a806 a80b a823-a827",
   "a82c a880-a881 a8b4-a8c5 a8d0-a8d9 a8e0-a8f1 a8ff-a909 a926-a92d a947-a953 a980-a983 a9b3-a9c0 a9d0-a9d9 a9e5",
   "a9f0-a9f9 aa29-aa36 aa43 aa4c-aa4d aa50-aa59 aa7b-aa7d aab0 aab2-aab4 aab7-aab8 aabe-aabf aac1 aaeb-aaef",
   "aaf5-aaf6 abe3-abea abec-abed abf0-abf9 fb1e fe00-fe0f fe20-fe2f fe33-fe34 fe4d-fe4f ff10-ff19 ff3f ff65 101fd",
   "102e0 10376-1037a 104a0-104a9 10a01-10a03 10a05-10a06 10a0c-10a0f 10a38-10a3a 10a3f 10ae5-10ae6 10d24-10d27",
   "10d30-10d39 10d40-10d49 10d69-10d6d 10eab-10eac 10efa-10eff 10f46-10f50 10f82-10f85 11000-11002 11038-11046",
   "11066-11070 11073-11074 1107f-11082 110b0-110ba 110c2 110f0-110f9 11100-11102 11127-11134 11136-1113f",
   "11145-11146 11173 11180-11182 111b3-111c0 111c9-111cc 111ce-111d9 1122c-11237 1123e 11241 112df-112ea",
   "112f0-112f9 11300-11303 1133b-1133c 1133e-11344 11347-11348 1134b-1134d 11357 11362-11363 11366-1136c",
   "11370-11374 113b8-113c0 113c2 113c5 113c7-113ca 113cc-113d0 113d2 113e1-113e2 11435-11446 11450-11459 1145e",
   "114b0-114c3 114d0-114d9 115af-115b5 115b8-115c0 115dc-115dd 11630-11640 11650-11659 116ab-116b7 116c0-116c9",
   "116d0-116e3 1171d-1172b 11730-11739 1182c-1183a 118e0-118e9 11930-11935 11937-11938 1193b-1193e 11940",
   "11942-11943 11950-11959 119d1-119d7 119da-119e0 119e4 11a01-11a0a 11a33-11a39 11a3b-11a3e 11a47 11a51-11a5b",
   "11a8a-11a99 11b60-11b67 11bf0-11bf9 11c2f-11c36 11c38-11c3f 11c50-11c59 11c92-11ca7 11ca9-11cb6 11d31-11d36",
   "11d3a 11d3c-11d3d 11d3f-11d45 11d47 11d50-11d59 11d8a-11d8e 11d90-11d91 11d93-11d97 11da0-11da9 11de0-11de9",
   "11ef3-11ef6 11f00-11f01 11f03 11f34-11f3a 11f3e-11f42 11f50-11f5a 13440 13447-13455 1611e-16139 16a60-16a69",
   "16ac0-16ac9 16af0-16af4 16b30-16b36 16b50-16b59 16d70-16d79 16f4f 16f51-16f87 16f8f-16f92 16fe4 16ff0-16ff1",
   "1bc9d-1bc9e 1ccf0-1ccf9 1cf00-1cf2d 1cf30-1cf46 1d165-1d169 1d16d-1d172 1d17b-1d182 1d185-1d18b 1d1aa-1d1ad",
   "1d242-1d244 1d7ce-1d7ff 1da00-1da36 1da3b-1da6c 1da75 1da84 1da9b-1da9f 1daa1-1daaf 1e000-1e006 1e008-1e018",
   "1e01b-1e021 1e023-1e024 1e026-1e02a 1e08f 1e130-1e136 1e140-1e149 1e2ae 1e2ec-1e2f9 1e4ec-1e4f9 1e5ee-1e5ef",
   "1e5f1-1e5fa 1e6e3 1e6e6 1e6ee-1e6ef 1e6f5 1e8d0-1e8d6 1e944-1e94a 1e950-1e959 1fbf0-1fbf9 e0100-e01ef"]

/-- Code points with the property Uppercase. -/
def uppercaseSet : CharSet := CharSet.ofText
  ["c0-d6 d8-de 100 102 104 106 108 10a 10c 10e 110 112 114 116 118 11a 11c 11e 120 122 124 126 128 12a 12c 12e 130",
   "132 134 136 139 13b 13d 13f 141 143 145 147 14a 14c 14e 150 152 154 156 158 15a 15c 15e 160 162 164 166 168 16a",
   "16c 16e 170 172 174 176 178-179 17b 17d 181-182 184 186-187 189-18b 18e-191 193-194 196-198 19c-19d 19f-1a0 1a2",
   "1a4 1a6-1a7 1a9 1ac 1ae-1af 1b1-1b3 1b5 1b7-1b8 1bc 1c4 1c7 1ca 1cd 1cf 1d1 1d3 1d5 1d7 1d9 1db 1de 1e0 1e2 1e4",
   "1e6 1e8 1ea 1ec 1ee 1f1 1f4 1f6-1f8 1fa 1fc 1fe 200 202 204 206 208 20a 20c 20e 210 212 214 216 218 21a 21c 21e",
   "220 222 224 226 228 22a 22c 22e 230 232 23a-23b 23d-23e 241 243-246 248 24a 24c 24e 370 372 376 37f 386 388-38a",
   "38c 38e-38f 391-3a1 3a3-3ab 3cf 3d2-3d4 3d8 3da 3dc 3de 3e0 3e2 3e4 3e6 3e8 3ea 3ec 3ee 3f4 3f7 3f9-3fa 3fd-42f",
   "460 462 464 466 468 46a 46c 46e 470 472 474 476 478 47a 47c 47e 480 48a 48c 48e 490 492 494 496 498 49a 49c 49e",
   "4a0 4a2 4a4 4a6 4a8 4aa 4ac 4ae 4b0 4b2 4b4 4b6 4b8 4ba 4bc 4be 4c0-4c1 4c3 4c5 4c7 4c9 4cb 4cd 4d0 4d2 4d4 4d6",
   "4d8 4da 4dc 4de 4e0 4e2 4e4 4e6 4e8 4ea 4ec 4ee 4f0 4f2 4f4 4f6 4f8 4fa 4fc 4fe 500 502 504 506 508 50a 50c 50e",
   "510 512 514 516 518 51a 51c 51e 520 522 524 526 528 52a 52c 52e 531-556 10a0-10c5 10c7 10cd 13a0-13f5 1c89",
   "1c90-1cba 1cbd-1cbf 1e00 1e02 1e04 1e06 1e08 1e0a 1e0c 1e0e 1e10 1e12 1e14 1e16 1e18 1e1a 1e1c 1e1e 1e20 1e22",
   "1e24 1e26 1e28 1e2a 1e2c 1e2e 1e30 1e32 1e34 1e36 1e38 1e3a 1e3c 1e3e 1e40 1e42 1e44 1e46 1e48 1e4a 1e4c 1e4e",
   "1e50 1e52 1e54 1e56 1e58 1e5a 1e5c 1e5e 1e60 1e62 1e64 1e66 1e68 1e6a 1e6c 1e6e 1e70 1e72 1e74 1e76 1e78 1e7a",
   "1e7c 1e7e 1e80 1e82 1e84 1e86 1e88 1e8a 1e8c 1e8e 1e90 1e92 1e94 1e9e 1ea0 1ea2 1ea4 1ea6 1ea8 1eaa 1eac 1eae",
   "1eb0 1eb2 1eb4 1eb6 1eb8 1eba 1ebc 1ebe 1ec0 1ec2 1ec4 1ec6 1ec8 1eca 1ecc 1ece 1ed0 1ed2 1ed4 1ed6 1ed8 1eda",
   "1edc 1ede 1ee0 1ee2 1ee4 1ee6 1ee8 1eea 1eec 1eee 1ef0 1ef2 1ef4 1ef6 1ef8 1efa 1efc 1efe 1f08-1f0f 1f18-1f1d",
   "1f28-1f2f 1f38-1f3f 1f48-1f4d 1f59 1f5b 1f5d 1f5f 1f68-1f6f 1fb8-1fbb 1fc8-1fcb 1fd8-1fdb 1fe8-1fec 1ff8-1ffb",
   "2102 2107 210b-210d 2110-2112 2115 2119-211d 2124 2126 2128 212a-212d 2130-2133 213e-213f 2145 2160-216f 2183",
   "24b6-24cf 2c00-2c2f 2c60 2c62-2c64 2c67 2c69 2c6b 2c6d-2c70 2c72 2c75 2c7e-2c80 2c82 2c84 2c86 2c88 2c8a 2c8c",
   "2c8e 2c90 2c92 2c94 2c96 2c98 2c9a 2c9c 2c9e 2ca0 2ca2 2ca4 2ca6 2ca8 2caa 2cac 2cae 2cb0 2cb2 2cb4 2cb6 2cb8",
   "2cba 2cbc 2cbe 2cc0 2cc2 2cc4 2cc6 2cc8 2cca 2ccc 2cce 2cd0 2cd2 2cd4 2cd6 2cd8 2cda 2cdc 2cde 2ce0 2ce2 2ceb",
   "2ced 2cf2 a640 a642 a644 a646 a648 a64a a64c a64e a650 a652 a654 a656 a658 a65a a65c a65e a660 a662 a664 a666",
   "a668 a66a a66c a680 a682 a684 a686 a688 a68a a68c a68e a690 a692 a694 a696 a698 a69a a722 a724 a726 a728 a72a",
   "a72c a72e a732 a734 a736 a738 a73a a73c a73e a740 a742 a744 a746 a748 a74a a74c a74e a750 a752 a754 a756 a758",
   "a75a a75c a75e a760 a762 a764 a766 a768 a76a a76c a76e a779 a77b a77d-a77e a780 a782 a784 a786 a78b a78d a790",
   "a792 a796 a798 a79a a79c a79e a7a0 a7a2 a7a4 a7a6 a7a8 a7aa-a7ae a7b0-a7b4 a7b6 a7b8 a7ba a7bc a7be a7c0 a7c2",
   "a7c4-a7c7 a7c9 a7cb-a7cc a7ce a7d0 a7d2 a7d4 a7d6 a7d8 a7da a7dc a7f5 ff21-ff3a 10400-10427 104b0-104d3",
   "10570-1057a 1057c-1058a 1058c-10592 10594-10595 10c80-10cb2 10d50-10d65 118a0-118bf 16e40-16e5f 16ea0-16eb8",
   "1d400-1d419 1d434-1d44d 1d468-1d481 1d49c 1d49e-1d49f 1d4a2 1d4a5-1d4a6 1d4a9-1d4ac 1d4ae-1d4b5 1d4d0-1d4e9",
   "1d504-1d505 1d507-1d50a 1d50d-1d514 1d516-1d51c 1d538-1d539 1d53b-1d53e 1d540-1d544 1d546 1d54a-1d550",
   "1d56c-1d585 1d5a0-1d5b9 1d5d4-1d5ed 1d608-1d621 1d63c-1d655 1d670-1d689 1d6a8-1d6c0 1d6e2-1d6fa 1d71c-1d734",
   "1d756-1d76e 1d790-1d7a8 1d7ca 1e900-1e921 1f130-1f149 1f150-1f169 1f170-1f189"]

/-- Code points with the property Lowercase. -/
def lowercaseSet : CharSet := CharSet.ofText
  ["aa b5 ba df-f6 f8-ff 101 103 105 107 109 10b 10d 10f 111 113 115 117 119 11b 11d 11f 121 123 125 127 129 12b 12d",
   "12f 131 133 135 137-138 13a 13c 13e 140 142 144 146 148-149 14b 14d 14f 151 153 155 157 159 15b 15d 15f 161 163",
   "165 167 169 16b 16d 16f 171 173 175 177 17a 17c 17e-180 183 185 188 18c-18d 192 195 199-19b 19e 1a1 1a3 1a5 1a8",
   "1aa-1ab 1ad 1b0 1b4 1b6 1b9-1ba 1bd-1bf 1c6 1c9 1cc 1ce 1d0 1d2 1d4 1d6 1d8 1da 1dc-1dd 1df 1e1 1e3 1e5 1e7 1e9",
   "1eb 1ed 1ef-1f0 1f3 1f5 1f9 1fb 1fd 1ff 201 203 205 207 209 20b 20d 20f 211 213 215 217 219 21b 21d 21f 221 223",
   "225 227 229 22b 22d 22f 231 233-239 23c 23f-240 242 247 249 24b 24d 24f-293 296-2b8 2c0-2c1 2e0-2e4 345 371 373",
   "377 37a-37d 390 3ac-3ce 3d0-3d1 3d5-3d7 3d9 3db 3dd 3df 3e1 3e3 3e5 3e7 3e9 3eb 3ed 3ef-3f3 3f5 3f8 3fb-3fc",
   "430-45f 461 463 465 467 469 46b 46d 46f 471 473 475 477 479 47b 47d 47f 481 48b 48d 48f 491 493 495 497 499 49b",
   "49d 49f 4a1 4a3 4a5 4a7 4a9 4ab 4ad 4af 4b1 4b3 4b5 4b7 4b9 4bb 4bd 4bf 4c2 4c4 4c6 4c8 4ca 4cc 4ce-4cf 4d1 4d3",
   "4d5 4d7 4d9 4db 4dd 4df 4e1 4e3 4e5 4e7 4e9 4eb 4ed 4ef 4f1 4f3 4f5 4f7 4f9 4fb 4fd 4ff 501 503 505 507 509 50b",
   "50d 50f 511 513 515 517 519 51b 51d 51f 521 523 525 527 529 52b 52d 52f 560-588 10d0-10fa 10fc-10ff 13f8-13fd",
   "1c80-1c88 1c8a 1d00-1dbf 1e01 1e03 1e05 1e07 1e09 1e0b 1e0d 1e0f 1e11 1e13 1e15 1e17 1e19 1e1b 1e1d 1e1f 1e21",
   "1e23 1e25 1e27 1e29 1e2b 1e2d 1e2f 1e31 1e33 1e35 1e37 1e39 1e3b 1e3d 1e3f 1e41 1e43 1e45 1e47 1e49 1e4b 1e4d",
   "1e4f 1e51 1e53 1e55 1e57 1e59 1e5b 1e5d 1e5f 1e61 1e63 1e65 1e67 1e69 1e6b 1e6d 1e6f 1e71 1e73 1e75 1e77 1e79",
   "1e7b 1e7d 1e7f 1e81 1e83 1e85 1e87 1e89 1e8b 1e8d 1e8f 1e91 1e93 1e95-1e9d 1e9f 1ea1 1ea3 1ea5 1ea7 1ea9 1eab",
   "1ead 1eaf 1eb1 1eb3 1eb5 1eb7 1eb9 1ebb 1ebd 1ebf 1ec1 1ec3 1ec5 1ec7 1ec9 1ecb 1ecd 1ecf 1ed1 1ed3 1ed5 1ed7",
   "1ed9 1edb 1edd 1edf 1ee1 1ee3 1ee5 1ee7 1ee9 1eeb 1eed 1eef 1ef1 1ef3 1ef5 1ef7 1ef9 1efb 1efd 1eff-1f07",
   "1f10-1f15 1f20-1f27 1f30-1f37 1f40-1f45 1f50-1f57 1f60-1f67 1f70-1f7d 1f80-1f87 1f90-1f97 1fa0-1fa7 1fb0-1fb4",
   "1fb6-1fb7 1fbe 1fc2-1fc4 1fc6-1fc7 1fd0-1fd3 1fd6-1fd7 1fe0-1fe7 1ff2-1ff4 1ff6-1ff7 2071 207f 2090-209c 210a",
   "210e-210f 2113 212f 2134 2139 213c-213d 2146-2149 214e 2170-217f 2184 24d0-24e9 2c30-2c5f 2c61 2c65-2c66 2c68",
   "2c6a 2c6c 2c71 2c73-2c74 2c76-2c7d 2c81 2c83 2c85 2c87 2c89 2c8b 2c8d 2c8f 2c91 2c93 2c95 2c97 2c99 2c9b 2c9d",
   "2c9f 2ca1 2ca3 2ca5 2ca7 2ca9 2cab 2cad 2caf 2cb1 2cb3 2cb5 2cb7 2cb9 2cbb 2cbd 2cbf 2cc1 2cc3 2cc5 2cc7 2cc9",
   "2ccb 2ccd 2ccf 2cd1 2cd3 2cd5 2cd7 2cd9 2cdb 2cdd 2cdf 2ce1 2ce3-2ce4 2cec 2cee 2cf3 2d00-2d25 2d27 2d2d a641",
   "a643 a645 a647 a649 a64b a64d a64f a651 a653 a655 a657 a659 a65b a65d a65f a661 a663 a665 a667 a669 a66b a66d",
   "a681 a683 a685 a687 a689 a68b a68d a68f a691 a693 a695 a697 a699 a69b-a69d a723 a725 a727 a729 a72b a72d",
   "a72f-a731 a733 a735 a737 a739 a73b a73d a73f a741 a743 a745 a747 a749 a74b a74d a74f a751 a753 a755 a757 a759",
   "a75b a75d a75f a761 a763 a765 a767 a769 a76b a76d a76f-a778 a77a a77c a77f a781 a783 a785 a787 a78c a78e a791",
   "a793-a795 a797 a799 a79b a79d a79f a7a1 a7a3 a7a5 a7a7 a7a9 a7af a7b5 a7b7 a7b9 a7bb a7bd a7bf a7c1 a7c3 a7c8",
   "a7ca a7cd a7cf a7d1 a7d3 a7d5 a7d7 a7d9 a7db a7f1-a7f4 a7f6 a7f8-a7fa ab30-ab5a ab5c-ab69 ab70-abbf fb00-fb06",
   "fb13-fb17 ff41-ff5a 10428-1044f 104d8-104fb 10597-105a1 105a3-105b1 105b3-105b9 105bb-105bc 10780 10783-10785",
   "10787-107b0 107b2-107ba 10cc0-10cf2 10d70-10d85 118c0-118df 16e60-16e7f 16ebb-16ed3 1d41a-1d433 1d44e-1d454",
   "1d456-1d467 1d482-1d49b 1d4b6-1d4b9 1d4bb 1d4bd-1d4c3 1d4c5-1d4cf 1d4ea-1d503 1d51e-1d537 1d552-1d56b",
   "1d586-1d59f 1d5ba-1d5d3 1d5ee-1d607 1d622-1d63b 1d656-1d66f 1d68a-1d6a5 1d6c2-1d6da 1d6dc-1d6e1 1d6fc-1d714",
   "1d716-1d71b 1d736-1d74e 1d750-1d755 1d770-1d788 1d78a-1d78f 1d7aa-1d7c2 1d7c4-1d7c9 1d7cb 1df00-1df09",
   "1df0b-1df1e 1df25-1df2a 1e030-1e06d 1e922-1e943"]

/-- Full upper-case images. -/
def upperMap : CharMap := CharMap.ofText
  ["b5+2e7 e0-f6<20 f8-fe<20 ff+79 101:12f<1 131<e8 133:137<1 13a:148<1 14b:177<1 17a:17e<1 17f<12c 180+c3 183:185<1",
   "188<1 18c<1 192<1 195+61 199<1 19a+a3 19b+a641 19e+82 1a1:1a5<1 1a8<1 1ad<1 1b0<1 1b4:1b6<1 1b9<1 1bd<1 1bf+38",
   "1c5<1 1c6<2 1c8<1 1c9<2 1cb<1 1cc<2 1ce:1dc<1 1dd<4f 1df:1ef<1 1f2<1 1f3<2 1f5<1 1f9:21f<1 223:233<1 23c<1",
   "23f-240+2a3f 242<1 247:24f<1 250+2a1f 251+2a1c 252+2a1e 253<d2 254<ce 256-257<cd 259<ca 25b<cb 25c+a54f 260<cd",
   "261+a54b 263<cf 264+a567 265+a528 266+a544 268<d1 269<d3 26a+a544 26b+29f7 26c+a541 26f<d3 271+29fd 272<d5",
   "275<d6 27d+29e7 280<da 282+a543 283<da 287+a52a 288<da 289<45 28a-28b<d9 28c<47 292<db 29d+a515 29e+a512 345+54",
   "371:373<1 377<1 37b-37d+82 3ac<26 3ad-3af<25 3b1-3c1<20 3c2<1f 3c3-3cb<20 3cc<40 3cd-3ce<3f 3d0<3e 3d1<39 3d5<2f",
   "3d6<36 3d7<8 3d9:3ef<1 3f0<56 3f1<50 3f2+7 3f3<74 3f5<60 3f8<1 3fb<1 430-44f<20 450-45f<50 461:481<1 48b:4bf<1",
   "4c2:4ce<1 4cf<f 4d1:52f<1 561-586<30 10d0-10fa+bc0 10fd-10ff+bc0 13f8-13fd<8 1c80<186e 1c81<186d 1c82<1864",
   "1c83-1c84<1862 1c85<1863 1c86<185c 1c87<1825 1c88+89c2 1c8a<1 1d79+8a04 1d7d+ee6 1d8e+8a38 1e01:1e95<1 1e9b<3b",
   "1ea1:1eff<1 1f00-1f07+8 1f10-1f15+8 1f20-1f27+8 1f30-1f37+8 1f40-1f45+8 1f51:1f57+8 1f60-1f67+8 1f70-1f71+4a",
   "1f72-1f75+56 1f76-1f77+64 1f78-1f79+80 1f7a-1f7b+70 1f7c-1f7d+7e 1fb0-1fb1+8 1fbe<1c25 1fd0-1fd1+8 1fe0-1fe1+8",
   "1fe5+7 214e<1c 2170-217f<10 2184<1 24d0-24e9<1a 2c30-2c5f<30 2c61<1 2c65<2a2b 2c66<2a28 2c68:2c6c<1 2c73<1",
   "2c76<1 2c81:2ce3<1 2cec:2cee<1 2cf3<1 2d00-2d25<1c60 2d27<1c60 2d2d<1c60 a641:a66d<1 a681:a69b<1 a723:a72f<1",
   "a733:a76f<1 a77a:a77c<1 a77f:a787<1 a78c<1 a791:a793<1 a794+30 a797:a7a9<1 a7b5:a7c3<1 a7c8:a7ca<1 a7cd:a7db<1",
   "a7f6<1 ab53<3a0 ab70-abbf<97d0 ff41-ff5a<20 10428-1044f<28 104d8-104fb<28 10597-105a1<27 105a3-105b1<27",
   "105b3-105b9<27 105bb-105bc<27 10cc0-10cf2<40 10d70-10d85<20 118c0-118df<20 16e60-16e7f<20 16ebb-16ed3<1b",
   "1e922-1e943<22"]
  ["df=53.53 149=2bc.4e 1f0=4a.30c 390=399.308.301 3b0=3a5.308.301 587=535.552 1e96=48.331 1e97=54.308 1e98=57.30a",
   "1e99=59.30a 1e9a=41.2be 1f50=3a5.313 1f52=3a5.313.300 1f54=3a5.313.301 1f56=3a5.313.342 1f80=1f08.399",
   "1f81=1f09.399 1f82=1f0a.399 1f83=1f0b.399 1f84=1f0c.399 1f85=1f0d.399 1f86=1f0e.399 1f87=1f0f.399 1f88=1f08.399",
   "1f89=1f09.399 1f8a=1f0a.399 1f8b=1f0b.399 1f8c=1f0c.399 1f8d=1f0d.399 1f8e=1f0e.399 1f8f=1f0f.399 1f90=1f28.399",
   "1f91=1f29.399 1f92=1f2a.399 1f93=1f2b.399 1f94=1f2c.399 1f95=1f2d.399 1f96=1f2e.399 1f97=1f2f.399 1f98=1f28.399",
   "1f99=1f29.399 1f9a=1f2a.399 1f9b=1f2b.399 1f9c=1f2c.399 1f9d=1f2d.399 1f9e=1f2e.399 1f9f=1f2f.399 1fa0=1f68.399",
   "1fa1=1f69.399 1fa2=1f6a.399 1fa3=1f6b.399 1fa4=1f6c.399 1fa5=1f6d.399 1fa6=1f6e.399 1fa7=1f6f.399 1fa8=1f68.399",
   "1fa9=1f69.399 1faa=1f6a.399 1fab=1f6b.399 1fac=1f6c.399 1fad=1f6d.399 1fae=1f6e.399 1faf=1f6f.399 1fb2=1fba.399",
   "1fb3=391.399 1fb4=386.399 1fb6=391.342 1fb7=391.342.399 1fbc=391.399 1fc2=1fca.399 1fc3=397.399 1fc4=389.399",
   "1fc6=397.342 1fc7=397.342.399 1fcc=397.399 1fd2=399.308.300 1fd3=399.308.301 1fd6=399.342 1fd7=399.308.342",
   "1fe2=3a5.308.300 1fe3=3a5.308.301 1fe4=3a1.313 1fe6=3a5.342 1fe7=3a5.308.342 1ff2=1ffa.399 1ff3=3a9.399",
   "1ff4=38f.399 1ff6=3a9.342 1ff7=3a9.342.399 1ffc=3a9.399 fb00=46.46 fb01=46.49 fb02=46.4c fb03=46.46.49",
   "fb04=46.46.4c fb05=53.54 fb06=53.54 fb13=544.546 fb14=544.535 fb15=544.53b fb16=54e.546 fb17=544.53d"]

/-- Full lower-case images. -/
def lowerMap : CharMap := CharMap.ofText
  ["c0-d6+20 d8-de+20 100:12e+1 132:136+1 139:147+1 14a:176+1 178<79 179:17d+1 181+d2 182:184+1 186+ce 187+1",
   "189-18a+cd 18b+1 18e+4f 18f+ca 190+cb 191+1 193+cd 194+cf 196+d3 197+d1 198+1 19c+d3 19d+d5 19f+d6 1a0:1a4+1",
   "1a6+da 1a7+1 1a9+da 1ac+1 1ae+da 1af+1 1b1-1b2+d9 1b3:1b5+1 1b7+db 1b8+1 1bc+1 1c4+2 1c5+1 1c7+2 1c8+1 1ca+2",
   "1cb:1db+1 1de:1ee+1 1f1+2 1f2:1f4+1 1f6<61 1f7<38 1f8:21e+1 220<82 222:232+1 23a+2a2b 23b+1 23d<a3 23e+2a28",
   "241+1 243<c3 244+45 245+47 246:24e+1 370:372+1 376+1 37f+74 386+26 388-38a+25 38c+40 38e-38f+3f 391-3a1+20",
   "3a3-3ab+20 3cf+8 3d8:3ee+1 3f4<3c 3f7+1 3f9<7 3fa+1 3fd-3ff<82 400-40f+50 410-42f+20 460:480+1 48a:4be+1 4c0+f",
   "4c1:4cd+1 4d0:52e+1 531-556+30 10a0-10c5+1c60 10c7+1c60 10cd+1c60 13a0-13ef+97d0 13f0-13f5+8 1c89+1",
   "1c90-1cba<bc0 1cbd-1cbf<bc0 1e00:1e94+1 1e9e<1dbf 1ea0:1efe+1 1f08-1f0f<8 1f18-1f1d<8 1f28-1f2f<8 1f38-1f3f<8",
   "1f48-1f4d<8 1f59:1f5f<8 1f68-1f6f<8 1f88-1f8f<8 1f98-1f9f<8 1fa8-1faf<8 1fb8-1fb9<8 1fba-1fbb<4a 1fbc<9",
   "1fc8-1fcb<56 1fcc<9 1fd8-1fd9<8 1fda-1fdb<64 1fe8-1fe9<8 1fea-1feb<70 1fec<7 1ff8-1ff9<80 1ffa-1ffb<7e 1ffc<9",
   "2126<1d5d 212a<20bf 212b<2046 2132+1c 2160-216f+10 2183+1 24b6-24cf+1a 2c00-2c2f+30 2c60+1 2c62<29f7 2c63<ee6",
   "2c64<29e7 2c67:2c6b+1 2c6d<2a1c 2c6e<29fd 2c6f<2a1f 2c70<2a1e 2c72+1 2c75+1 2c7e-2c7f<2a3f 2c80:2ce2+1",
   "2ceb:2ced+1 2cf2+1 a640:a66c+1 a680:a69a+1 a722:a72e+1 a732:a76e+1 a779:a77b+1 a77d<8a04 a77e:a786+1 a78b+1",
   "a78d<a528 a790:a792+1 a796:a7a8+1 a7aa<a544 a7ab<a54f a7ac<a54b a7ad<a541 a7ae<a544 a7b0<a512 a7b1<a52a",
   "a7b2<a515 a7b3+3a0 a7b4:a7c2+1 a7c4<30 a7c5<a543 a7c6<8a38 a7c7:a7c9+1 a7cb<a567 a7cc:a7da+1 a7dc<a641 a7f5+1",
   "ff21-ff3a+20 10400-10427+28 104b0-104d3+28 10570-1057a+27 1057c-1058a+27 1058c-10592+27 10594-10595+27",
   "10c80-10cb2+40 10d50-10d65+20 118a0-118bf+20 16e40-16e5f+20 16ea0-16eb8+1b 1e900-1e921+22"]
  ["130=69.307"]

/-! ## Classes -/

def isAlphabetic (c : Char) : Bool :=
  if c.toNat < 128 then c.isAlpha else alphabeticSet.contains c

def isNumeric (c : Char) : Bool :=
  if c.toNat < 128 then c.isDigit else numericSet.contains c

def isAlphanumeric (c : Char) : Bool := isAlphabetic c || isNumeric c

def isWord (c : Char) : Bool :=
  if c.toNat < 128 then c.isAlphanum || c == '_' else alphabeticSet.contains c || wordExtraSet.contains c

def isUpper (c : Char) : Bool :=
  if c.toNat < 128 then c.isUpper else uppercaseSet.contains c

def isLower (c : Char) : Bool :=
  if c.toNat < 128 then c.isLower else lowercaseSet.contains c

/-- The characters that may start an identifier of a script. -/
def isScriptIdStart (c : Char) : Bool :=
  if c.toNat < 128 then c.isAlpha || c == '_' || c == '$' else idStartSet.contains c

/-- The characters that may continue an identifier of a script; the two joiners are among them. -/
def isScriptIdPart (c : Char) : Bool :=
  if c.toNat < 128 then c.isAlphanum || c == '_' || c == '$'
  else idStartSet.contains c || idContinueExtraSet.contains c || c.toNat == 0x200C || c.toNat == 0x200D

def toUpper (c : Char) : List Char :=
  if c.toNat < 128 then [c.toUpper] else upperMap.apply c

def toLower (c : Char) : List Char :=
  if c.toNat < 128 then [c.toLower] else lowerMap.apply c

end PatternCatalog.Text
