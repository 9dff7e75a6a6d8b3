import IChat.General.Json

/-!
# Email templates

`render` looks up the renderer of a template and builds the subject and the two bodies from the
payload of the row. It raises for a template it does not know and for a payload without the link of
the template, and for no other.
-/

namespace IChat.Email

/-- `html.escape`. -/
def htmlEscape (s : String) : String :=
  let escape (c : Char) : List Char :=
    if c = '&' then "&amp;".toList
    else if c = '<' then "&lt;".toList
    else if c = '>' then "&gt;".toList
    else if c = Char.ofNat 34 then "&quot;".toList
    else if c = Char.ofNat 39 then "&#x27;".toList
    else [c]
  String.ofList (s.toList.flatMap escape)

/-- `RenderedEmail`. -/
structure RenderedEmail where
  subject : String
  html : String
  text : String
  deriving DecidableEq

/-- The texts of `_render_card_html`. -/
structure Card where
  subject : String
  preheader : String
  heading : String
  intro : String
  buttonLabel : String
  actionUrl : String
  expiryLine : String
  footerLine : String

/-- `_render_card_html`. -/
def renderCardHtml (card : Card) : String :=
  "<!DOCTYPE html>\n<html lang=\"en\">\n<head>\n<meta charset=\"utf-8\">\n" ++
  "<meta name=\"viewport\" content=\"width=device-width, initial-scale=1\">\n<title>" ++
  htmlEscape card.subject ++
  "</title>\n</head>\n<body style=\"margin:0;padding:0;background-color:#f4f3f0;\">\n" ++
  "<div style=\"display:none;max-height:0;overflow:hidden;mso-hide:all;\">" ++
  htmlEscape card.preheader ++
  "</div>\n" ++
  "<table role=\"presentation\" width=\"100%\" cellpadding=\"0\" cellspacing=\"0\" border=\"0\" " ++
  "style=\"background-color:#f4f3f0;\">\n<tr><td align=\"center\" style=\"padding:40px 16px;\">\n"
    ++
  "<table role=\"presentation\" width=\"100%\" cellpadding=\"0\" cellspacing=\"0\" border=\"0\" " ++
  "style=\"max-width:480px;\">\n" ++
  "<tr><td style=\"padding:0 8px 20px;font-family:-apple-system,'Segoe " ++
  "UI',Roboto,Helvetica,Arial,sans-serif;font-size:20px;font-weight:700;letter-spacing:-0.02em;" ++
  "color:#1a1a19;\">iChat</td></tr>\n<tr><td style=\"background-color:#ffffff;border:1px solid " ++
  "rgba(20,20,19,0.08);border-radius:12px;padding:36px 32px;\">\n" ++
  "<table role=\"presentation\" width=\"100%\" cellpadding=\"0\" cellspacing=\"0\" " ++
  "border=\"0\">\n<tr><td style=\"font-family:-apple-system,'Segoe " ++
  "UI',Roboto,Helvetica,Arial,sans-serif;font-size:22px;font-weight:600;letter-spacing:-0.01em;" ++
  "color:#1a1a19;padding-bottom:12px;\">" ++
  htmlEscape card.heading ++
  "</td></tr>\n<tr><td style=\"font-family:-apple-system,'Segoe " ++
  "UI',Roboto,Helvetica,Arial,sans-serif;font-size:15px;line-height:1.6;color:#6b6a66;" ++
  "padding-bottom:28px;\">" ++
  htmlEscape card.intro ++
  "</td></tr>\n<tr><td align=\"center\" style=\"padding-bottom:28px;\">\n" ++
  "<table role=\"presentation\" cellpadding=\"0\" cellspacing=\"0\" border=\"0\">\n" ++
  "<tr><td align=\"center\" style=\"background-color:#1a1a19;border-radius:8px;\"><a href=\"" ++
  htmlEscape card.actionUrl ++
  "\" style=\"display:inline-block;padding:12px 32px;font-family:-apple-system,'Segoe " ++
  "UI',Roboto,Helvetica,Arial,sans-serif;font-size:15px;font-weight:600;color:#fbfbfa;" ++
  "text-decoration:none;\">" ++
  htmlEscape card.buttonLabel ++
  "</a></td></tr>\n</table>\n</td></tr>\n<tr><td style=\"font-family:-apple-system,'Segoe " ++
  "UI',Roboto,Helvetica,Arial,sans-serif;font-size:13px;line-height:1.6;color:#95938e;" ++
  "border-top:1px solid rgba(20,20,19,0.08);padding-top:20px;\">If the button does not work, " ++
  "copy and paste this link into your browser:<br><a href=\"" ++
  htmlEscape card.actionUrl ++
  "\" style=\"color:#1a1a19;word-break:break-all;\">" ++
  htmlEscape card.actionUrl ++
  "</a></td></tr>\n<tr><td style=\"font-family:-apple-system,'Segoe " ++
  "UI',Roboto,Helvetica,Arial,sans-serif;font-size:13px;line-height:1.6;color:#95938e;" ++
  "padding-top:12px;\">" ++
  htmlEscape card.expiryLine ++
  "</td></tr>\n</table>\n</td></tr>\n" ++
  "<tr><td style=\"padding:20px 8px 0;font-family:-apple-system,'Segoe " ++
  "UI',Roboto,Helvetica,Arial,sans-serif;font-size:12px;line-height:1.6;color:#b8b6b0;\">" ++
  htmlEscape card.footerLine ++
  "</td></tr>\n</table>\n</td></tr>\n</table>\n</body>\n</html>\n"

/-- `payload[key]`, where the text of a link is expected. -/
def linkOf (payload : Dict) (key : String) : Option String := (payload.get? key).bind Json.str?

/-- `payload.get("username") or "there"`, as text. -/
def usernameOf (payload : Dict) : String :=
  match payload.get? "username" with
  | some username => if username.truthy then username.toStr else "there"
  | none => "there"

/-- The line about the lifetime under a key, if there is one. -/
def expiryLineOf (payload : Dict) (key before after otherwise : String) : String :=
  match payload.get? key with
  | some expires => if expires.truthy then before ++ expires.toStr ++ after else otherwise
  | none => otherwise

def emailVerificationSubject : String := "Verify your iChat email"

def passwordResetSubject : String := "Reset your iChat password"

def accountDeletionSubject : String := "Confirm your iChat account deletion"

def renderEmailVerification (payload : Dict) : Option RenderedEmail := do
  let verificationUrl ← linkOf payload "verification_url"
  let username := usernameOf payload
  let expiryLine := expiryLineOf payload "expires_in_hours" "This link expires in " " hours."
    "This link will expire soon."
  let footerLine := "If you did not create an iChat account, you can safely ignore this email."
  let text := "Hi " ++ username ++ ",\n\n" ++
    "Confirm your email to secure your iChat account by opening this link:\n" ++
    verificationUrl ++ "\n\n" ++ expiryLine ++ "\n\n" ++
    "If you did not create an iChat account, you can ignore this email."
  let html := renderCardHtml
    { subject := emailVerificationSubject
      preheader := "Confirm your email to finish setting up your iChat account."
      heading := "Verify your email"
      intro := "Hi " ++ username ++ ", confirm your email address to secure your iChat account."
      buttonLabel := "Verify my email"
      actionUrl := verificationUrl
      expiryLine
      footerLine }
  some { subject := emailVerificationSubject, html, text }

def renderPasswordReset (payload : Dict) : Option RenderedEmail := do
  let resetUrl ← linkOf payload "reset_url"
  let username := usernameOf payload
  let expiryLine := expiryLineOf payload "expires_in_minutes" "This link expires in "
    " minutes and can be used once." "This link will expire soon and can be used once."
  let footerLine := "If you did not request a password reset, you can safely ignore this " ++
    "email — your password will not change."
  let text := "Hi " ++ username ++ ",\n\n" ++
    "We received a request to reset your iChat password. Set a new password " ++
    "by opening this link:\n" ++
    resetUrl ++ "\n\n" ++ expiryLine ++ "\n\n" ++ footerLine
  let html := renderCardHtml
    { subject := passwordResetSubject
      preheader := "Set a new password for your iChat account."
      heading := "Reset your password"
      intro := "Hi " ++ username ++ ", we received a request to reset your iChat password. " ++
        "Click the button below to set a new one."
      buttonLabel := "Reset my password"
      actionUrl := resetUrl
      expiryLine
      footerLine }
  some { subject := passwordResetSubject, html, text }

def renderAccountDeletion (payload : Dict) : Option RenderedEmail := do
  let deletionUrl ← linkOf payload "deletion_url"
  let username := usernameOf payload
  let expiryLine := expiryLineOf payload "expires_in_minutes" "This link expires in "
    " minutes and can be used once." "This link will expire soon and can be used once."
  let footerLine := "If you did not request this, someone may have access to your account " ++
    "— change your password immediately."
  let text := "Hi " ++ username ++ ",\n\n" ++
    "We received a request to delete your iChat account. Confirm the " ++
    "deletion by opening this link:\n" ++
    deletionUrl ++ "\n\n" ++
    "Once confirmed, your account is deactivated immediately and you will " ++
    "be signed out everywhere.\n\n" ++
    expiryLine ++ "\n\n" ++ footerLine
  let html := renderCardHtml
    { subject := accountDeletionSubject
      preheader := "Confirm the deletion of your iChat account."
      heading := "Delete your account"
      intro := "Hi " ++ username ++ ", we received a request to delete your iChat account. " ++
        "Once confirmed, your account is deactivated immediately and you " ++
        "will be signed out everywhere."
      buttonLabel := "Delete my account"
      actionUrl := deletionUrl
      expiryLine
      footerLine }
  some { subject := accountDeletionSubject, html, text }

/-- `_RENDERERS`. -/
def renderers : List (String × (Dict → Option RenderedEmail)) :=
  [("email_verification", renderEmailVerification), ("password_reset", renderPasswordReset),
    ("account_deletion", renderAccountDeletion)]

/-- `render`; `none` is an exception. -/
def render (template : String) (payload : Dict) : Option RenderedEmail := do
  let renderer ← renderers.lookup template
  renderer payload

/-- The link that a template needs. -/
def linkKey (template : String) : Option String :=
  [("email_verification", "verification_url"), ("password_reset", "reset_url"),
    ("account_deletion", "deletion_url")].lookup template

theorem linkOf_eq_some_iff {payload : Dict} {key url : String} :
    linkOf payload key = some url ↔ payload.get? key = some (.str url) := by
  rw [linkOf, Option.bind_eq_some_iff]
  constructor
  · rintro ⟨value, hvalue, htext⟩
    cases value <;> cases htext
    exact hvalue
  · intro hvalue
    exact ⟨.str url, hvalue, rfl⟩

theorem isSome_renderEmailVerification (payload : Dict) :
    (renderEmailVerification payload).isSome = (linkOf payload "verification_url").isSome := by
  rw [renderEmailVerification]
  cases linkOf payload "verification_url" <;> rfl

theorem isSome_renderPasswordReset (payload : Dict) :
    (renderPasswordReset payload).isSome = (linkOf payload "reset_url").isSome := by
  rw [renderPasswordReset]
  cases linkOf payload "reset_url" <;> rfl

theorem isSome_renderAccountDeletion (payload : Dict) :
    (renderAccountDeletion payload).isSome = (linkOf payload "deletion_url").isSome := by
  rw [renderAccountDeletion]
  cases linkOf payload "deletion_url" <;> rfl

/-- A row is rendered exactly if its template is known and its payload has the link as a text. -/
theorem isSome_render_iff (template : String) (payload : Dict) :
    (render template payload).isSome ↔
      ∃ key url, linkKey template = some key ∧ payload.get? key = some (.str url) := by
  have hlink : ∀ key, (linkOf payload key).isSome ↔ ∃ url, payload.get? key = some (.str url) := by
    intro key
    rw [Option.isSome_iff_exists]
    exact exists_congr fun url => linkOf_eq_some_iff
  have hknown : ∀ key, linkKey template = some key →
      (render template payload).isSome = (linkOf payload key).isSome →
      ((render template payload).isSome ↔
        ∃ key url, linkKey template = some key ∧ payload.get? key = some (.str url)) := by
    intro key hkey hsame
    rw [hsame, hlink key]
    constructor
    · rintro ⟨url, hurl⟩
      exact ⟨key, url, hkey, hurl⟩
    · rintro ⟨other, url, hother, hurl⟩
      obtain rfl : key = other := Option.some_inj.mp (hkey.symm.trans hother)
      exact ⟨url, hurl⟩
  by_cases hverification : template = "email_verification"
  · subst hverification
    exact hknown "verification_url" rfl (isSome_renderEmailVerification payload)
  by_cases hreset : template = "password_reset"
  · subst hreset
    exact hknown "reset_url" rfl (isSome_renderPasswordReset payload)
  by_cases hdeletion : template = "account_deletion"
  · subst hdeletion
    exact hknown "deletion_url" rfl (isSome_renderAccountDeletion payload)
  have hrender : render template payload = none := by
    have hnone : renderers.lookup template = none := by
      simp [renderers, hverification, hreset, hdeletion]
    rw [render, hnone]
    rfl
  have hkey : linkKey template = none := by
    simp [linkKey, hverification, hreset, hdeletion]
  rw [hrender, hkey]
  simp

end IChat.Email
